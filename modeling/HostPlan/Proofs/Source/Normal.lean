import HostPlan.Proofs.Source.Code
/-!
The normal form of a program text. Literals are kept, code is laid out anew, and neither comments nor
line breaks of another kind change what is left. Behind a solid character of code the rest of a
text has its normal form on its own.
-/
namespace HostPlan.Source

open Text

/-- A text without comments in its normal form, but for the blanks at its two ends. -/
def tidy (s : List Char) : List Char := written Segment.normal s

section Tidy

theorem tidy_code {run : List Char} (plain : Unquoted run) : tidy run = normalCode run :=
  written_code normalCode_nil plain

theorem tidy_segments {run body rest : List Char} {q : Char} (plain : Unquoted run)
    (hq : isQuote q = true) (inside : (Place.literal q).Within body)
    (ends : (Place.literal q).after body = .code ∨ rest = []) :
    tidy (run ++ q :: (body ++ rest)) = normalCode run ++ q :: (body ++ tidy rest) := by
  rw [tidy, written_segments normalCode_nil plain hq inside ends]
  simp [Segment.normal, tidy]

/-- Behind a solid character of code a text is laid out on its own. -/
theorem tidy_append_cons {s : List Char} {c : Char} (closed : Place.code.after s = .code)
    (hc : Solid c) (t : List Char) : tidy (s ++ c :: t) = tidy s ++ c :: tidy t := by
  have split (s t : List Char) : normalCode (s ++ c :: t) = normalCode s ++ normalCode (c :: t) := by
    have alone := normalCode_append_cons hc [] t
    rw [List.nil_append] at alone
    rw [normalCode_append_cons hc, alone]
    rfl
  have front : tidy (s ++ c :: t) = tidy s ++ tidy (c :: t) := by
    refine written_append normalCode_nil closed fun a _ b hb => ?_
    rcases List.prefix_cons_iff.1 hb with rfl | ⟨b', rfl, _⟩
    · simp [Segment.normal, normalCode_nil]
    · exact split a b'
  have back : tidy ([c] ++ t) = tidy [c] ++ tidy t := by
    refine written_append normalCode_nil (Place.next_code hc.neutral.1) fun a ha b _ => ?_
    rcases List.suffix_cons_iff.1 ha with rfl | ha
    · have one := normalCode_append_cons hc [] b
      have alone := normalCode_append_cons hc [] []
      simp only [Segment.normal]
      rw [List.nil_append] at one alone
      rw [List.singleton_append, one, alone]
      rfl
    · rw [List.suffix_nil.1 ha]
      rfl
  have alone : tidy [c] = [c] := by
    have plain : Unquoted [c] := by simpa [Unquoted] using hc.neutral.1
    rw [tidy_code plain]
    exact normalCode_append_cons hc [] []
  rw [front, ← List.singleton_append, back, alone]
  rfl

/-- A blank in front of a text is left as one space or not at all. -/
theorem tidy_cons_blank {b : Char} (hb : isBlank b = true) (t : List Char) :
    tidy (b :: t) = tidy t ∨ tidy (b :: t) = ' ' :: tidy t := by
  have notQuote := isQuote_of_isBlank hb
  rcases Place.cases_segments t with plain | ⟨run, q, body, rest, rfl, plain, hq, inside, ends⟩
  · have longer : Unquoted (b :: t) := .cons notQuote plain
    rw [tidy_code plain, tidy_code longer]
    exact normalCode_cons_blank hb t
  · have longer : Unquoted (b :: run) := .cons notQuote plain
    rw [← List.cons_append, tidy_segments plain hq inside ends, tidy_segments longer hq inside ends]
    rcases normalCode_cons_blank hb run with same | one
    · rw [same]
      exact .inl rfl
    · rw [one]
      exact .inr rfl

end Tidy

/-- What no layout changes: all but the blanks of the code. -/
def Mark.isShown : Mark → Bool
  | .code c => !isBlank c
  | _ => true

def shown (ms : List Mark) : List Mark := ms.filter Mark.isShown

/-- The second text has the same literals, the same code but for its blanks, and no comment. -/
structure Tidied (s t : List Char) : Prop where
  shown : shown (Place.code.marks t) = shown (Place.code.marks s)
  clean : Uncommented .code t
  after : Place.code.after t = Place.code.after s

theorem shown_map_code (s : List Char) :
    shown (s.map .code) = (s.filter fun c => !isBlank c).map .code := by
  rw [shown, List.filter_map]
  rfl

theorem shown_append (ms ns : List Mark) : shown (ms ++ ns) = shown ms ++ shown ns :=
  List.filter_append ..

/-- What stands behind a literal does not touch it. -/
theorem Place.Within.uncommented {p : Place} {body rest : List Char} (inside : p.Within body)
    (h : Uncommented (p.after body) rest) : Uncommented p (body ++ rest) := by
  induction body generalizing p with
  | nil => exact h
  | cons c body ih =>
    rw [Within, Place.marks, List.map_cons, List.cons.injEq] at inside
    refine ⟨?_, ih inside.2 h⟩
    rintro rfl rfl
    cases inside.1

theorem Uncommented.append_quote {s t : List Char} {q : Char} (hq : isQuote q = true)
    (plain : Unquoted s) (hs : Uncommented .code s) (ht : Uncommented .code (q :: t)) :
    Uncommented .code (s ++ q :: t) := by
  have apart : isCommentSign q = false := by
    simp only [isQuote, Bool.or_eq_true, beq_iff_eq] at hq
    rcases hq with rfl | rfl <;> rfl
  exact hs.append_of (by rwa [Place.after_code plain]) fun d hd => by cases hd; exact apart

/-- Laying out a text without comments changes its blanks only. -/
theorem tidied {s : List Char} (h : Uncommented .code s) : Tidied s (tidy s) := by
  -- Each run of code is laid out on its own, and the literals between them stay as they are.
  induction s using Place.induction_segments with
  | code run plain =>
    have respaced := respaced_normalCode run
    have plain' := respaced.unquoted plain
    rw [tidy_code plain]
    refine ⟨?_, respaced.clean plain h, ?_⟩
    · rw [Place.marks_code plain, Place.marks_code plain', shown_map_code, shown_map_code,
        respaced.shown]
    · rw [Place.after_code plain, Place.after_code plain']
  | literal run q body rest plain hq inside ends ih =>
    have respaced := respaced_normalCode run
    have plain' := respaced.unquoted plain
    obtain ⟨hrun, hliteral⟩ := h.append
    rw [Place.after_code plain] at hliteral
    have hrest : Uncommented .code rest := by
      have behind := hliteral.2
      rw [Place.next_quote hq] at behind
      rcases ends with closed | rfl
      · exact closed ▸ behind.append.2
      · exact trivial
    obtain ⟨same, clean, after⟩ := ih hrest
    have ends' : (Place.literal q).after body = .code ∨ tidy rest = [] :=
      ends.imp_right fun none => by rw [none]; rfl
    rw [tidy_segments plain hq inside ends]
    refine ⟨?_, ?_, ?_⟩
    · rw [Place.marks_segments plain hq inside ends, Place.marks_segments plain' hq inside ends',
        shown_append, shown_append, shown_map_code, shown_map_code, respaced.shown,
        ← List.cons_append, ← List.cons_append, shown_append, shown_append, same]
    · refine (respaced.clean plain hrun).append_quote hq plain' ⟨?_, ?_⟩
      · rintro _ rfl
        cases hq
      · rw [Place.next_quote hq]
        refine inside.uncommented ?_
        rcases ends' with closed | none
        · rwa [closed]
        · rw [none]
          exact trivial
    · rw [Place.after_segments plain hq, Place.after_segments plain' hq]
      rcases ends with closed | rfl
      · rw [closed, after]
      · rfl

end HostPlan.Source
