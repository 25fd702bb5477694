import HostPlan.Proofs.Source.Layout
import HostPlan.Proofs.Source.Locality
/-!
The normal form of two texts on lines of their own. When the first one ends with a statement, it is
the two normal forms with blanks between them, the first of which ends with the statement still.
-/
namespace HostPlan.Source

open Text

section Marks

theorem reachesQuote_outer (ms : List Mark) : reachesQuote (outer ms) = reachesQuote ms := by
  induction ms with
  | nil => rfl
  | cons m ms ih =>
    cases m with
    | opening c => rfl
    | inside c => exact ih
    | code c =>
      cases hc : isBlank c with
      | true =>
        have free : ¬(c = '(' ∨ c = ')' ∨ c = ';') := by
          rintro (rfl | rfl | rfl) <;> cases hc
        rw [outer_cons_blank hc, ih, reachesQuote, if_neg free]
      | false =>
        rw [outer_cons_code hc, reachesQuote, reachesQuote, ih]

theorem misleads_outer (b : Bool) (ms : List Mark) : misleads b (outer ms) = misleads b ms := by
  induction ms generalizing b with
  | nil => rfl
  | cons m ms ih =>
    cases m with
    | opening c => exact ih false
    | inside c => exact ih b
    | code c =>
      cases hc : isBlank c with
      | true =>
        rw [outer_cons_blank hc, ih, misleads_code, if_pos hc]
      | false =>
        have shown : ¬isBlank c = true := by simp [hc]
        rw [outer_cons_code hc, misleads_code, misleads_code, if_neg shown, if_neg shown,
          reachesQuote_outer, ih]

theorem above_outer {k : Int} (hk : 0 ≤ k) (ms : List Mark) : Above k (outer ms) ↔ Above k ms := by
  induction ms generalizing k with
  | nil => exact Iff.rfl
  | cons m ms ih =>
    have kept : Above k (m :: outer ms) ↔ Above k (m :: ms) := by
      constructor
      · intro h
        exact ⟨h.1, (ih h.1).1 h.2⟩
      · intro h
        exact ⟨h.1, (ih h.1).2 h.2⟩
    have skipped (weight : m.weight = 0) : Above k (outer ms) ↔ Above k (m :: ms) := by
      rw [Above, weight, Int.add_zero, ih hk]
      exact ⟨fun h => ⟨hk, h⟩, fun h => h.2⟩
    cases m with
    | opening c => exact kept
    | inside c => exact skipped rfl
    | code c =>
      cases hc : isBlank c with
      | true =>
        rw [outer_cons_blank hc]
        exact skipped (weight_of_isBlank hc)
      | false =>
        rw [outer_cons_code hc]
        exact kept

theorem outer_marks_blank (p : Place) {b : List Char} (hb : Blank b) : outer (p.marks b) = [] := by
  induction b generalizing p with
  | nil => rfl
  | cons c b ih =>
    obtain ⟨head, tail⟩ := List.forall_mem_cons.1 hb
    have hidden : (p.mark c).isOuter = false := by
      cases p with
      | code => rw [Place.mark_code (isQuote_of_isBlank head)]; simp [Mark.isOuter, head]
      | literal q => rfl
      | escape q => rfl
    have rest := ih (p.next c) tail
    rw [outer] at rest ⊢
    rw [Place.marks, List.filter_cons, hidden, rest]
    rfl

end Marks

section Statements

variable {s t : List Char}

theorem Mode.Proper.after {m : Mode} (h : m.Proper) (s : List Char) : (m.after s).Proper := by
  induction s generalizing m with
  | nil => exact h
  | cons c s ih => exact ih (h.step c)

/-- A character that ends neither a literal nor a comment leaves the text outside them only where it
stands outside them. -/
theorem Mode.Proper.plain_of_step {m : Mode} (h : m.Proper) {c : Char} (quote : isQuote c = false)
    (free : c ≠ '\n' ∧ c ≠ '/') (plain : (m.step c).1.IsPlain) : m.IsPlain := by
  cases m with
  | code => exact .inl rfl
  | slash => exact .inr rfl
  | literal q =>
    have other : c ≠ q := by
      rintro rfl
      rw [Proper, quote] at h
      cases h
    rw [Mode.step, if_neg other] at plain
    split at plain <;> rcases plain with none | none <;> cases none
  | escape q => rcases plain with none | none <;> cases none
  | lineComment =>
    rw [Mode.step, if_neg free.1] at plain
    rcases plain with none | none <;> cases none
  | blockComment =>
    rw [Mode.step] at plain
    split at plain <;> rcases plain with none | none <;> cases none
  | star =>
    rw [Mode.step, if_neg free.2] at plain
    split at plain <;> rcases plain with none | none <;> cases none

/-- A semicolon that leaves the text outside literals and comments stood there. -/
theorem plain_of_semicolon (h : Mode.code.after (t ++ [';']) = .code) :
    (Mode.code.after t).IsPlain := by
  have proper := Mode.Proper.after (m := .code) trivial t
  rw [Mode.after_append] at h
  exact proper.plain_of_step (c := ';') rfl (by decide) (.inl h)

/-- Byte order marks at the start of a text are code, which makes no difference to what passes over
it. -/
theorem unmarked {α : Type} {f : List Mark → α} (skips : ∀ ms, f (.code '\uFEFF' :: ms) = f ms)
    (s : List Char) :
    Mode.code.after (s.dropWhile (· == '\uFEFF')) = Mode.code.after s ∧
      f (Mode.code.marks (s.dropWhile (· == '\uFEFF'))) = f (Mode.code.marks s) := by
  induction s with
  | nil => exact ⟨rfl, rfl⟩
  | cons c s ih =>
    by_cases mark : c = '\uFEFF'
    · subst mark
      have step : Mode.code.step '\uFEFF' = (.code, [.code '\uFEFF']) :=
        Mode.step_code (by decide) (by decide)
      have marks : Mode.code.marks ('\uFEFF' :: s) = .code '\uFEFF' :: Mode.code.marks s := by
        rw [Mode.marks, step]
        rfl
      rw [List.dropWhile_cons, if_pos (by decide), marks, skips]
      exact ih
    · rw [List.dropWhile_cons, if_neg (by simpa using mark)]
      exact ⟨rfl, rfl⟩

theorem misleads_unmarked (ms : List Mark) :
    misleads false (.code '\uFEFF' :: ms) = misleads false ms := by
  have noWord : isWord '\uFEFF' = false := by decide +kernel
  rw [misleads_code, if_neg (by decide), noWord, Bool.false_and, Bool.false_and, Bool.false_or]

theorem dropWhile_unmarked (h : t.head? ≠ some '\uFEFF') : t.dropWhile (· == '\uFEFF') = t := by
  cases t with
  | nil => rfl
  | cons c t =>
    have other : c ≠ '\uFEFF' := by
      rintro rfl
      exact h rfl
    simp [other]

theorem uncommented_normalize (s : List Char) : Uncommented .code (normalize s) := by
  obtain ⟨l, r, hl, -, hs⟩ := exists_trim (relaid (s.dropWhile (· == '\uFEFF')))
  have clean := (relaid_spec (s.dropWhile (· == '\uFEFF'))).clean
  rw [hs] at clean
  rw [normalize_eq]
  exact clean.append.1.of_blank hl

theorem outer_blanks {b : List Char} (hb : Blank b) (s : List Char) :
    outer (Place.code.marks (b ++ s)) = outer (Place.code.marks s) := by
  rw [Place.marks_append, outer_append, outer_marks_blank _ hb, Place.after_code (Unquoted.of_blank hb)]
  rfl

/-- Text and normal form have the same marks but for blanks and what is inside of literals. -/
theorem outer_normalize (s : List Char) :
    outer (Place.code.marks (normalize s)) =
      outer (Mode.code.marks (s.dropWhile (· == '\uFEFF'))) := by
  obtain ⟨a, b, ha, hb, hs⟩ := exists_trim (relaid (s.dropWhile (· == '\uFEFF')))
  have marks := (relaid_spec (s.dropWhile (· == '\uFEFF'))).outer
  rw [hs, List.append_assoc, outer_blanks ha, Place.marks_append, outer_append,
    outer_marks_blank _ hb, List.append_nil] at marks
  rw [normalize_eq, marks]

/-- The texts that end a statement: a semicolon outside literals and comments, and before it no angle
bracket that leads into a literal. -/
structure EndsStatement (s : List Char) : Prop where
  last : s.getLast? = some ';'
  closed : Mode.code.after s = .code
  calm : misleads false (Mode.code.marks s) = false

theorem EndsStatement.split (h : EndsStatement s) :
    ∃ t, s.dropWhile (· == '\uFEFF') = t ++ [';'] ∧ (Mode.code.after t).IsPlain ∧
      ∀ w, (s ++ w).dropWhile (· == '\uFEFF') = t ++ ';' :: w := by
  have ends : Ends s := by
    obtain ⟨v, hv⟩ := List.getLast?_eq_some_iff.1 h.last
    exact ⟨v, hv⟩
  have stop : (';' == '\uFEFF') = false := by decide
  obtain ⟨-, t, ht⟩ := ends.dropWhile_append (p := (· == '\uFEFF')) stop []
  have closed := h.closed
  rw [← (unmarked misleads_unmarked s).1, ht] at closed
  refine ⟨t, ht, plain_of_semicolon closed, fun w => ?_⟩
  rw [(ends.dropWhile_append (p := (· == '\uFEFF')) stop w).1, ht, List.append_assoc]
  rfl

theorem EndsStatement.ended (h : EndsStatement s) : Ended (normalize s) := by
  obtain ⟨t, ht, plain, -⟩ := h.split
  have solid : Solid ';' := by decide
  have laid : relaid (t ++ [';']) = relaid t ++ [';'] := by
    rw [relaid_append_cons solid plain]
    rfl
  have normal : normalize s = trimStart (relaid t) ++ [';'] := by
    rw [normalize_eq, ht, laid, trim_append_cons solid.shown]
    rfl
  obtain ⟨l, hl, hs⟩ := exists_trimStart (relaid t)
  have blanks : Unquoted l := .of_blank hl
  have closed := (relaid_spec t).after
  rw [hs, plain.place, Place.after_append, Place.after_code blanks] at closed
  refine ⟨⟨_, normal, closed⟩, ?_⟩
  rw [← misleads_outer, outer_normalize, misleads_outer, (unmarked misleads_unmarked s).2]
  exact h.calm

/-- Behind a statement and a line break a text has the normal form that it has alone. -/
theorem EndsStatement.normalize_append (h : EndsStatement s) (unmarked : t.head? ≠ some '\uFEFF') :
    ∃ l, Blank l ∧ normalize (s ++ '\n' :: t) = normalize s ++ (l ++ normalize t) := by
  obtain ⟨v, hv, plain, whole⟩ := h.split
  have solid : Solid ';' := by decide
  have alone := dropWhile_unmarked unmarked
  obtain ⟨l, hl, line⟩ : ∃ l, Blank l ∧ relaid ('\n' :: t) = l ++ relaid t := by
    rcases relaid_cons_blank (b := '\n') (by decide) (by decide) t with same | one
    · exact ⟨[], blank_nil, same⟩
    · exact ⟨[' '], blank_space, one⟩
  obtain ⟨l', hl', hs⟩ := exists_trimStart (relaid t)
  obtain ⟨l'', hl'', ends⟩ := trimEnd_blank_append (hl.append hl') (trimStart (relaid t))
  refine ⟨l'', hl'', ?_⟩
  rw [normalize_eq, normalize_eq, normalize_eq, whole, hv, alone, relaid_append_cons solid plain,
    relaid_append_cons solid plain, relaid_nil, line, trim_append_cons solid.shown,
    trim_append_cons solid.shown, hs, ← List.append_assoc, ends, ← hs]
  simp [trim, trimEnd]

/-- The normal form of a text closes no more brackets than it opens when the text does not. -/
theorem above_normalize (unmarked : t.head? ≠ some '\uFEFF') {l : List Char} (hl : Blank l)
    (above : ∀ p, p <+: t → 0 ≤ depth (Mode.code.marks p)) :
    Above 0 (Place.code.marks (l ++ normalize t)) := by
  have whole : Above 0 (Mode.code.marks t) := by
    refine above_of_prefixes fun p hp => ?_
    rw [Int.zero_add]
    exact above p hp
  rw [← above_outer (Int.le_refl 0), outer_blanks hl, outer_normalize, dropWhile_unmarked unmarked,
    above_outer (Int.le_refl 0)]
  exact whole

end Statements

end HostPlan.Source
