import HostPlan.Proofs.Source.Normal
/-!
From a program text to its normal form: line breaks are unified, comments dropped, and the code laid
out anew. None of these steps changes the literals' places or the code but for its blanks, and each
may be taken apart at a solid character.
-/
namespace HostPlan.Source

open Text

/-- What tells two texts apart that differ neither in the code nor in where a literal begins. -/
def Mark.isOuter : Mark → Bool
  | .code c => !isBlank c
  | .opening _ => true
  | .inside _ => false

def outer (ms : List Mark) : List Mark := ms.filter Mark.isOuter

theorem outer_append (ms ns : List Mark) : outer (ms ++ ns) = outer ms ++ outer ns :=
  List.filter_append ..

theorem outer_cons_blank {c : Char} (h : isBlank c = true) (ms : List Mark) :
    outer (.code c :: ms) = outer ms := by
  simp [outer, Mark.isOuter, h]

theorem outer_cons_code {c : Char} (h : isBlank c = false) (ms : List Mark) :
    outer (.code c :: ms) = .code c :: outer ms := by
  simp [outer, Mark.isOuter, h]

theorem outer_shown (ms : List Mark) : outer (shown ms) = outer ms := by
  rw [outer, shown, List.filter_filter]
  congr 1
  funext k
  cases k <;> simp [Mark.isOuter, Mark.isShown]

section Breaks

/-- The literals of the mode are quoted by quotes. -/
def Mode.Proper : Mode → Prop
  | .literal q => isQuote q = true
  | .escape q => isQuote q = true
  | _ => True

theorem Mode.Proper.step {m : Mode} (h : m.Proper) (c : Char) : (m.step c).1.Proper := by
  have start : (Mode.start c).1.Proper := by
    unfold Mode.start
    split
    · assumption
    · split <;> exact trivial
  cases m with
  | code => exact start
  | slash =>
    rw [Mode.step]
    split
    · exact trivial
    · split
      · exact trivial
      · exact start
  | literal q =>
    rw [Mode.step]
    split
    · exact h
    · split
      · exact trivial
      · exact h
  | escape q => exact h
  | lineComment => rw [Mode.step]; split <;> exact trivial
  | blockComment => rw [Mode.step]; split <;> exact trivial
  | star =>
    rw [Mode.step]
    split
    · exact trivial
    · split <;> exact trivial

/-- A carriage return before a line break changes no more than the blanks. -/
theorem Mode.Proper.step_break {m : Mode} (h : m.Proper) :
    ((m.step '\r').1.step '\n').1 = (m.step '\n').1 ∧
      outer ((m.step '\r').2 ++ ((m.step '\r').1.step '\n').2) = outer (m.step '\n').2 := by
  have other : ∀ q, isQuote q = true → '\r' ≠ q ∧ '\n' ≠ q := by
    intro q hq
    constructor <;> (rintro rfl; cases hq)
  cases m with
  | literal q =>
    obtain ⟨hr, hn⟩ := other q h
    simp [Mode.step, hr, hn, outer, Mark.isOuter]
  | escape q =>
    obtain ⟨-, hn⟩ := other q h
    simp [Mode.step, hn, outer, Mark.isOuter]
  | _ => decide

theorem unifyBreaks_pair (r : List Char) :
    unifyBreaks ('\r' :: '\n' :: r) = '\n' :: unifyBreaks r := rfl

/-- Any other character is kept. -/
theorem unifyBreaks_kept {c : Char} {r : List Char} (no : ∀ t, c = '\r' → r = '\n' :: t → False) :
    unifyBreaks (c :: r) = c :: unifyBreaks r := by
  rw [unifyBreaks]
  exact no

theorem unified {m : Mode} (h : m.Proper) (s : List Char) :
    m.after (unifyBreaks s) = m.after s ∧ outer (m.marks (unifyBreaks s)) = outer (m.marks s) := by
  induction s using unifyBreaks.induct generalizing m with
  | case1 => exact ⟨rfl, rfl⟩
  | case2 r ih =>
    obtain ⟨mode, marks⟩ := h.step_break
    obtain ⟨after, rest⟩ := ih (h.step '\n')
    rw [unifyBreaks_pair]
    constructor
    · change (m.step '\n').1.after _ = ((m.step '\r').1.step '\n').1.after r
      rw [mode, after]
    · rw [Mode.marks, Mode.marks, Mode.marks, mode, ← List.append_assoc, outer_append, outer_append,
        marks, rest]
  | case3 c r no ih =>
    obtain ⟨after, rest⟩ := ih (h.step c)
    rw [unifyBreaks_kept no]
    exact ⟨after, by rw [Mode.marks, Mode.marks, outer_append, outer_append, rest]⟩

theorem unifyBreaks_cons {c : Char} (hc : c ≠ '\r') (s : List Char) :
    unifyBreaks (c :: s) = c :: unifyBreaks s :=
  unifyBreaks_kept fun _ same _ => hc same

theorem unifyBreaks_eq_self {s : List Char} (unix : '\r' ∉ s) : unifyBreaks s = s := by
  induction s with
  | nil => rfl
  | cons c s ih =>
    rw [List.mem_cons, not_or] at unix
    rw [unifyBreaks_cons (Ne.symm unix.1), ih unix.2]

theorem unifyBreaks_cons_cases (c : Char) (s : List Char) :
    unifyBreaks (c :: s) = c :: unifyBreaks s ∨
      unifyBreaks (c :: s) = unifyBreaks s ∧ ∃ r, s = '\n' :: r := by
  by_cases h : c = '\r' ∧ ∃ r, s = '\n' :: r
  · obtain ⟨rfl, r, rfl⟩ := h
    refine .inr ⟨?_, r, rfl⟩
    rw [unifyBreaks_pair, unifyBreaks_cons (by decide)]
  · refine .inl (unifyBreaks_kept ?_)
    rintro r rfl rfl
    exact h ⟨rfl, r, rfl⟩

/-- Line breaks are unified in two texts one by one, unless a break goes over the cut. -/
theorem unifyBreaks_append {s t : List Char}
    (apart : s.getLast? = some '\r' → t.head? ≠ some '\n') :
    unifyBreaks (s ++ t) = unifyBreaks s ++ unifyBreaks t := by
  induction s using unifyBreaks.induct with
  | case1 => rfl
  | case2 r ih =>
    rw [List.cons_append, List.cons_append, unifyBreaks_pair, unifyBreaks_pair, ih]
    · rfl
    · intro last
      apply apart
      rw [List.getLast?_cons_cons]
      cases r with
      | nil => cases last
      | cons d r => exact last
  | case3 c r no ih =>
    have no' : ∀ r', c = '\r' → r ++ t = '\n' :: r' → False := by
      intro r' hc h
      cases r with
      | nil =>
        rw [List.nil_append] at h
        exact apart (by rw [hc]; rfl) (by rw [h]; rfl)
      | cons d r => exact no r hc (by rw [(List.cons.inj h).1])
    rw [List.cons_append, unifyBreaks_kept no', unifyBreaks_kept no, ih]
    · rfl
    · intro last
      apply apart
      cases r with
      | nil => cases last
      | cons d r => exact last

theorem unifyBreaks_append_cons {c : Char} (hr : c ≠ '\r') (hn : c ≠ '\n') (s t : List Char) :
    unifyBreaks (s ++ c :: t) = unifyBreaks s ++ c :: unifyBreaks t := by
  have apart : s.getLast? = some '\r' → (c :: t).head? ≠ some '\n' :=
    fun _ same => hn (Option.some.inj same)
  rw [unifyBreaks_append apart, unifyBreaks_cons hr]

theorem unifyBreaks_sublist (s : List Char) : (unifyBreaks s).Sublist s := by
  induction s with
  | nil => exact .slnil
  | cons c s ih =>
    rcases unifyBreaks_cons_cases c s with kept | ⟨gone, -⟩
    · rw [kept]
      exact ih.cons_cons c
    · rw [gone]
      exact ih.cons c

end Breaks

/-- The normal form of a text without byte order marks, but for the blanks at its two ends. -/
def relaid (s : List Char) : List Char := tidy (Mode.code.uncommented (unifyBreaks s))

theorem marks_uncommented (s : List Char) :
    Place.code.marks (Mode.code.uncommented s) = Mode.code.marks s :=
  (Mode.stripped .code s).marks

theorem normalize_eq (s : List Char) :
    normalize s = trim (relaid (s.dropWhile (· == '\uFEFF'))) := by
  rw [relaid, tidy, written, marks_uncommented]
  rfl

/-- What a text keeps when it is laid out anew. -/
structure Relaid (s t : List Char) : Prop where
  outer : outer (Place.code.marks t) = outer (Mode.code.marks s)
  clean : Uncommented .code t
  after : Place.code.after t = (Mode.code.after s).place

theorem relaid_spec (s : List Char) : Relaid s (relaid s) := by
  have stripped := Mode.stripped .code (unifyBreaks s)
  obtain ⟨mode, marks⟩ := unified (m := .code) trivial s
  have done := tidied stripped.clean
  refine ⟨?_, done.clean, ?_⟩
  · have same := congrArg outer done.shown
    rw [outer_shown, outer_shown, marks_uncommented, marks] at same
    exact same
  · rw [← mode, ← stripped.after]
    exact done.after

section Cutting

variable {c : Char} {s : List Char}

theorem Mode.uncommented_append_neutral {m : Mode} (hc : Neutral c) (plain : (m.after s).IsPlain)
    (t : List Char) :
    m.uncommented (s ++ c :: t) = m.uncommented s ++ c :: Mode.code.uncommented t := by
  rw [uncommented, marks_append_neutral hc plain, List.map_append]
  rfl

theorem Mode.IsPlain.place {m : Mode} (h : m.IsPlain) : m.place = .code := by
  rcases h with rfl | rfl <;> rfl

/-- A program text may be laid out in two parts around a solid character. -/
theorem relaid_append_cons (hc : Solid c) (plain : (Mode.code.after s).IsPlain) (t : List Char) :
    relaid (s ++ c :: t) = relaid s ++ c :: relaid t := by
  have shown := hc.shown
  have unbroken : c ≠ '\r' ∧ c ≠ '\n' := by
    constructor <;> (rintro rfl; cases shown)
  obtain ⟨mode, -⟩ := unified (m := .code) trivial s
  have closed : Place.code.after (Mode.code.uncommented (unifyBreaks s)) = .code := by
    have stripped := (Mode.stripped .code (unifyBreaks s)).after
    rw [mode, plain.place] at stripped
    exact stripped
  rw [relaid, unifyBreaks_append_cons unbroken.1 unbroken.2,
    Mode.uncommented_append_neutral hc.neutral (mode ▸ plain), tidy_append_cons closed hc]
  rfl

theorem relaid_cons_blank {b : Char} (hb : isBlank b = true) (hr : b ≠ '\r') (t : List Char) :
    relaid (b :: t) = relaid t ∨ relaid (b :: t) = ' ' :: relaid t := by
  have step : Mode.code.step b = (.code, [.code b]) :=
    Mode.step_code (isQuote_of_isBlank hb) (by rintro rfl; cases hb)
  have first : Mode.code.uncommented (b :: unifyBreaks t) =
      b :: Mode.code.uncommented (unifyBreaks t) := by
    rw [Mode.uncommented, Mode.marks, step]
    rfl
  rw [relaid, unifyBreaks_cons hr, first]
  exact tidy_cons_blank hb _

theorem relaid_nil : relaid [] = [] := rfl

end Cutting

end HostPlan.Source
