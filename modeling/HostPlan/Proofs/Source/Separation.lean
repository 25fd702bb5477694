import HostPlan.Proofs.Source.Mask
import HostPlan.Proofs.Source.Spacing
/-!
What stands apart in the code stays apart. Laying out a text takes blanks away where there are more of
them, and at signs that get spaces of their own; but where it takes a blank away there is another one,
with the same code in front of it.
-/
namespace HostPlan.Source

open Text

section Code

variable {b s t u s' t' : List Char}

/-- The text without its blanks. -/
def dense (s : List Char) : List Char := s.filter fun c => !isBlank c

theorem dense_append (s t : List Char) : dense (s ++ t) = dense s ++ dense t := List.filter_append ..

theorem dense_cons {c : Char} (hc : isBlank c = false) (s : List Char) :
    dense (c :: s) = c :: dense s := by
  simp [dense, hc]

theorem dense_cons_blank {c : Char} (hc : isBlank c = true) (s : List Char) :
    dense (c :: s) = dense s := by
  simp [dense, hc]

theorem dense_blank (h : Blank b) : dense b = [] := filter_blank h

/-- Where a blank stands in the first text one stands in the second text, with the same in front of
it but for blanks. -/
def KeepsApart (s t : List Char) : Prop :=
  ∀ x c y, s = x ++ c :: y → isBlank c = true →
    ∃ x' c' y', t = x' ++ c' :: y' ∧ isBlank c' = true ∧ dense x' = dense x

namespace KeepsApart

theorem refl (s : List Char) : KeepsApart s s := fun x c y split hc => ⟨x, c, y, split, hc, rfl⟩

theorem trans (first : KeepsApart s t) (second : KeepsApart t u) : KeepsApart s u := by
  intro x c y split hc
  obtain ⟨x', c', y', split', hc', same⟩ := first x c y split hc
  obtain ⟨x'', c'', y'', split'', hc'', same'⟩ := second x' c' y' split' hc'
  exact ⟨x'', c'', y'', split'', hc'', same'.trans same⟩

theorem of_blank (hb : Blank b) : KeepsApart b [' '] := by
  rintro x c y rfl -
  have front : Blank x := fun d hd => hb d (List.mem_append_left _ hd)
  exact ⟨[], ' ', [], rfl, by decide, (dense_blank front).symm⟩

theorem append (first : KeepsApart s t) (same : dense t = dense s) (second : KeepsApart s' t') :
    KeepsApart (s ++ s') (t ++ t') := by
  intro x c y split hc
  rcases append_eq_append_cons split with ⟨r, rfl⟩ | ⟨r, rfl, rfl⟩
  · obtain ⟨x', c', y', rfl, hc', front⟩ := first x c r rfl hc
    exact ⟨x', c', y' ++ t', by simp, hc', front⟩
  · obtain ⟨x', c', y', rfl, hc', front⟩ := second r c y rfl hc
    exact ⟨t ++ x', c', y', by simp, hc', by rw [dense_append, dense_append, same, front]⟩

/-- A sign between spaces keeps apart what the blanks at the sign kept apart. -/
theorem sign {p l sep : List Char} (hb : Blank b) (hl : Blank l) (h : KeepsApart s t) :
    KeepsApart (p ++ b ++ sep ++ (l ++ s)) (p ++ (' ' :: sep ++ [' ']) ++ t) := by
  have before : KeepsApart (p ++ b) (p ++ [' ']) := (refl p).append rfl (of_blank hb)
  have behind : KeepsApart (l ++ s) ([' '] ++ t) := by
    refine (of_blank hl).append ?_ h
    rw [dense_blank hl, dense_blank blank_space]
  have whole : KeepsApart (p ++ b ++ (sep ++ (l ++ s))) (p ++ [' '] ++ (sep ++ ([' '] ++ t))) := by
    refine before.append ?_ ((refl sep).append rfl behind)
    rw [dense_append, dense_append, dense_blank hb, dense_blank blank_space]
  simpa using whole

end KeepsApart

/-- A blank of the code is left as a space, unless it follows others that are. -/
theorem collapse_blank {c : Char} (hc : isBlank c = true) (x y : List Char) (f : Bool)
    (open_ : f = false ∨ dense x ≠ []) :
    ∃ x' y', collapse f (x ++ c :: y) = x' ++ ' ' :: y' ∧ dense x' = dense x := by
  induction x generalizing f with
  | nil =>
    obtain rfl : f = false := open_.resolve_right fun h => h rfl
    exact ⟨[], collapse true y, by simp [collapse_cons, hc], rfl⟩
  | cons d x ih =>
    cases hd : isBlank d with
    | false =>
      obtain ⟨x', y', split, same⟩ := ih false (.inl rfl)
      refine ⟨d :: x', y', by simp [collapse_cons, hd, split], ?_⟩
      rw [dense_cons hd, dense_cons hd, same]
    | true =>
      rw [dense_cons_blank hd] at open_ ⊢
      by_cases first : dense x = []
      · obtain rfl : f = false := open_.resolve_right fun h => h first
        exact ⟨[], collapse true (x ++ c :: y), by simp [collapse_cons, hd], first.symm⟩
      · obtain ⟨x', y', split, same⟩ := ih true (.inr first)
        cases f with
        | true => exact ⟨x', y', by simp [collapse_cons, hd, split], same⟩
        | false =>
          refine ⟨' ' :: x', y', by simp [collapse_cons, hd, split], ?_⟩
          rw [dense_cons_blank (by decide), same]

theorem keepsApart_normalCode (t : List Char) : KeepsApart t (normalCode t) := by
  have collapsed : KeepsApart t (collapse false t) := by
    rintro x c y rfl hc
    obtain ⟨x', y', split, same⟩ := collapse_blank hc x y false (.inl rfl)
    exact ⟨x', ' ', y', split, by decide, same⟩
  have arrows : KeepsApart (collapse false t) (spaceArrows (collapse false t)) := by
    have joined := join_relates ['=', '>'] KeepsApart.refl
      (fun p b l s t hb hl h => KeepsApart.sign hb hl h) (cutArrows (collapse false t))
    rwa [intercalate_cutArrows] at joined
  have signs : KeepsApart (spaceArrows (collapse false t)) (normalCode t) := by
    have joined := join_relates ['='] KeepsApart.refl
      (fun p b l s t hb hl h => KeepsApart.sign hb hl h)
      (cutAssignments none (spaceArrows (collapse false t)))
    rwa [intercalate_cutAssignments] at joined
  exact (collapsed.trans arrows).trans signs

end Code

section Texts

variable {s t : List Char} {c : Char}

/-- Where a blank stands in the code of a text one stands in the code of the text laid out, and the two
texts show the same in front of it. -/
theorem tidy_blank (closed : Place.code.after s = .code) (hc : isBlank c = true) (t : List Char) :
    ∃ s' c' t', tidy (s ++ c :: t) = s' ++ c' :: t' ∧ isBlank c' = true ∧
      Place.code.after s' = .code ∧ shown (Place.code.marks s') = shown (Place.code.marks s) := by
  have notQuote := isQuote_of_isBlank hc
  -- The literals before the blank are passed one by one; the run of code around it is left.
  induction s using Place.induction_segments with
  | code run plain =>
    have front {x run' : List Char} (hx : dense x = dense run) (whole : Unquoted (x ++ run')) :
        Place.code.after x = .code ∧ shown (Place.code.marks x) = shown (Place.code.marks run) := by
      have plain' : Unquoted x := (List.forall_mem_append.1 whole).1
      refine ⟨Place.after_code plain', ?_⟩
      rw [Place.marks_code plain', Place.marks_code plain, shown_map_code, shown_map_code]
      exact congrArg (List.map Mark.code) hx
    rcases Place.cases_segments t with ht | ⟨run', q, body, rest, rfl, ht, hq, inside, ends⟩
    · have code : Unquoted (run ++ c :: t) := plain.append (.cons notQuote ht)
      obtain ⟨x, c', y, split, hc', same⟩ := keepsApart_normalCode (run ++ c :: t) run c t rfl hc
      have whole := (respaced_normalCode (run ++ c :: t)).unquoted code
      rw [split] at whole
      rw [tidy_code code, split]
      exact ⟨x, c', y, rfl, hc', front same whole⟩
    · have code : Unquoted (run ++ c :: run') := plain.append (.cons notQuote ht)
      obtain ⟨x, c', y, split, hc', same⟩ :=
        keepsApart_normalCode (run ++ c :: run') run c run' rfl hc
      have whole := (respaced_normalCode (run ++ c :: run')).unquoted code
      rw [split] at whole
      have laid := tidy_segments code hq inside ends
      rw [split] at laid
      refine ⟨x, c', y ++ q :: (body ++ tidy rest), ?_, hc', front same whole⟩
      simpa using laid
  | literal run q body rest plain hq inside ends ih =>
    have bodyClosed := Place.closed_literal plain hq ends closed
    rw [Place.after_segments plain hq, bodyClosed] at closed
    obtain ⟨s', c', t', split, hc', closed', same⟩ := ih closed
    have plain' := (respaced_normalCode run).unquoted plain
    refine ⟨normalCode run ++ q :: (body ++ s'), c', t', ?_, hc', ?_, ?_⟩
    · have regroup : run ++ q :: (body ++ rest) ++ c :: t =
          run ++ q :: (body ++ (rest ++ c :: t)) := by simp
      rw [regroup, tidy_segments plain hq inside (.inl bodyClosed), split]
      simp
    · rw [Place.after_segments plain' hq, bodyClosed, closed']
    · rw [Place.marks_segments plain' hq inside (.inl bodyClosed),
        Place.marks_segments plain hq inside (.inl bodyClosed), shown_append, shown_append,
        shown_map_code, shown_map_code, (respaced_normalCode run).shown, ← List.cons_append,
        ← List.cons_append, shown_append, shown_append, same]

end Texts

section Blanks

/-- The literals of the place are quoted by quotes. -/
def Place.Proper : Place → Prop
  | .code => True
  | .literal q => isQuote q = true
  | .escape q => isQuote q = true

variable {p : Place} {s b : List Char}

theorem Place.Proper.next (h : p.Proper) (c : Char) : (p.next c).Proper := by
  cases p with
  | code =>
    cases hc : isQuote c with
    | false => rw [Place.next_code hc]; trivial
    | true => rw [Place.next_quote hc]; exact hc
  | literal q =>
    rw [Place.next_literal]
    split
    · exact h
    · split
      · exact trivial
      · exact h
  | escape q => exact h

theorem Place.Proper.after (h : p.Proper) (s : List Char) : (p.after s).Proper := by
  induction s generalizing p with
  | nil => exact h
  | cons c s ih => exact ih (h.next c)

/-- A blank closes no literal. -/
theorem Place.Proper.inside_blanks (h : p.Proper) (hp : p ≠ .code) (hb : Blank b) :
    p.Within b ∧ p.after b ≠ .code := by
  induction b generalizing p with
  | nil => exact ⟨rfl, hp⟩
  | cons c b ih =>
    obtain ⟨head, tail⟩ := List.forall_mem_cons.1 hb
    have notQuote := isQuote_of_isBlank head
    have on : p.next c ≠ .code ∧ p.mark c = .inside c := by
      cases p with
      | code => exact absurd rfl hp
      | literal q =>
        have other : c ≠ q := by
          rintro rfl
          rw [Place.Proper, notQuote] at h
          cases h
        refine ⟨?_, rfl⟩
        rw [Place.next_literal, if_neg other]
        split <;> simp
      | escape q => exact ⟨Place.noConfusion, rfl⟩
    obtain ⟨inside, open_⟩ := ih (h.next c) on.1 tail
    refine ⟨?_, open_⟩
    rw [Place.Within, Place.marks, on.2, inside]
    rfl

theorem closed_of_blanks (hb : Blank b) (closed : Place.code.after (s ++ b) = .code) :
    Place.code.after s = .code := by
  by_contra open_
  have proper : (Place.code.after s).Proper := Place.Proper.after (p := .code) trivial s
  rw [Place.after_append] at closed
  exact (proper.inside_blanks open_ hb).2 closed

end Blanks

section Gaps

variable {m : Mode} {x w s t : List Char} {a b c : Char}

def Mode.InComment (m : Mode) : Prop := m = .lineComment ∨ m = .blockComment ∨ m = .star

/-- A comment opens with the character in front of the text. -/
def OpensComment (c : Char) (r : List Char) : Prop :=
  c = '/' ∧ ∃ d, r.head? = some d ∧ isCommentSign d = true

theorem Mode.exists_marks_append (m : Mode) (s : List Char) :
    ∃ ms, ∀ t, m.marks (s ++ t) = ms ++ (m.after s).marks t := by
  induction s generalizing m with
  | nil => exact ⟨[], fun t => rfl⟩
  | cons c s ih =>
    obtain ⟨ms, rest⟩ := ih (m.step c).1
    exact ⟨(m.step c).2 ++ ms, fun t => by rw [List.cons_append, Mode.marks, rest, List.append_assoc]; rfl⟩

theorem Mode.uncommented_append (closed : m.after s = .code) (t : List Char) :
    m.uncommented (s ++ t) = m.uncommented s ++ Mode.code.uncommented t := by
  obtain ⟨ms, marks⟩ := m.exists_marks_append s
  have alone := marks []
  rw [List.append_nil, closed] at alone
  rw [uncommented, uncommented, uncommented, marks, alone, closed, List.map_append]
  simp [Mode.marks, Mode.finish]

theorem Mode.eq_slash_of_step (h : (m.step c).1 = .slash) : c = '/' := by
  have start (h : (Mode.start c).1 = .slash) : c = '/' := by
    unfold Mode.start at h
    split at h
    · cases h
    · split at h
      · assumption
      · cases h
  cases m with
  | code => exact start h
  | slash =>
    rw [Mode.step] at h
    split at h
    · cases h
    · split at h
      · cases h
      · exact start h
  | literal q =>
    rw [Mode.step] at h
    split at h
    · cases h
    · split at h <;> cases h
  | escape q => cases h
  | lineComment => rw [Mode.step] at h; split at h <;> cases h
  | blockComment => rw [Mode.step] at h; split at h <;> cases h
  | star =>
    rw [Mode.step] at h
    split at h
    · cases h
    · split at h <;> cases h

/-- Blanks and comments between two texts leave blanks between them, one at least. -/
theorem Filler.uncommented (h : Filler w) (filled : w ≠ [])
    (plain : (Mode.code.after s).IsPlain)
    (apart : Mode.code.after s = .slash → ∀ d, w.head? = some d → isCommentSign d = false) :
    ∃ g, g ≠ [] ∧ Blank g ∧ ∀ t, Mode.code.uncommented (s ++ (w ++ t)) =
      Mode.code.uncommented s ++ (g ++ Mode.code.uncommented t) := by
  rcases plain with code | slash
  · obtain ⟨g, hg, left, marks⟩ := h.marks
    refine ⟨g, left filled, hg, fun t => ?_⟩
    have char : Mark.char ∘ Mark.code = id := rfl
    have filler : Mode.code.uncommented (w ++ t) = g ++ Mode.code.uncommented t := by
      rw [Mode.uncommented, marks, List.map_append, List.map_map, char, List.map_id]
      rfl
    rw [Mode.uncommented_append code, filler]
  · have gap : Gap w := by
      refine ⟨?_, h⟩
      cases h with
      | nil => exact absurd rfl filled
      | @blank c r hc _ => exact ⟨c, r, rfl, hc⟩
      | line => exact absurd (apart slash '/' rfl) (by decide)
      | block => exact absurd (apart slash '/' rfl) (by decide)
    exact gap.uncommented (.inr slash)

/-- A character outside comments and outside literals that go on is the last thing left of a text. -/
theorem Mode.exists_marks_last (outside : ¬ (m.after x).InComment)
    (plain : (m.after (x ++ [a])).IsPlain) : ∃ ms k, m.marks (x ++ [a]) = ms ++ [k] ∧ k.char = a := by
  have start (plain : (Mode.start a).1.IsPlain) :
      ∃ k, (Mode.start a).2 ++ (Mode.start a).1.finish = [k] ∧ k.char = a := by
    unfold Mode.start at plain ⊢
    split
    · rename_i quote
      rw [if_pos quote] at plain
      rcases plain with none | none <;> cases none
    · split
      · rename_i slash
        exact ⟨.code '/', rfl, slash.symm⟩
      · exact ⟨.code a, rfl, rfl⟩
  have single (m : Mode) (outside : ¬ m.InComment) (plain : (m.step a).1.IsPlain) :
      ∃ ms k, m.marks [a] = ms ++ [k] ∧ k.char = a := by
    change ∃ ms k, (m.step a).2 ++ (m.step a).1.finish = ms ++ [k] ∧ k.char = a
    cases m with
    | code =>
      obtain ⟨k, one, char⟩ := start plain
      exact ⟨[], k, one, char⟩
    | slash =>
      rw [Mode.step] at plain ⊢
      split at plain
      · rcases plain with none | none <;> cases none
      · split at plain
        · rcases plain with none | none <;> cases none
        · rename_i line block
          obtain ⟨k, one, char⟩ := start plain
          refine ⟨[.code '/'], k, ?_, char⟩
          rw [if_neg line, if_neg block, List.cons_append, one]
          rfl
    | literal q =>
      refine ⟨[], .inside a, ?_, rfl⟩
      rw [Mode.step] at plain ⊢
      split at plain
      · rcases plain with none | none <;> cases none
      · rename_i escape
        rw [if_neg escape]
        split <;> rfl
    | escape q => rcases plain with none | none <;> cases none
    | lineComment => exact absurd (.inl rfl) outside
    | blockComment => exact absurd (.inr (.inl rfl)) outside
    | star => exact absurd (.inr (.inr rfl)) outside
  obtain ⟨ms, marks⟩ := m.exists_marks_append x
  rw [Mode.after_append] at plain
  obtain ⟨ms', k, one, char⟩ := single (m.after x) outside plain
  exact ⟨ms ++ ms', k, by rw [marks, one, List.append_assoc], char⟩

theorem exists_marks_cons (free : ¬ OpensComment b s) :
    ∃ k ms, Mode.code.marks (b :: s) = k :: ms ∧ k.char = b := by
  by_cases slash : b = '/'
  · subst slash
    change ∃ k ms, Mode.slash.marks s = k :: ms ∧ k.char = '/'
    cases s with
    | nil => exact ⟨.code '/', [], rfl, rfl⟩
    | cons d s =>
      have other : isCommentSign d = false := by
        cases sign : isCommentSign d with
        | false => rfl
        | true => exact absurd ⟨rfl, d, rfl, sign⟩ free
      rw [Mode.marks, Mode.step_slash other]
      exact ⟨.code '/', _, rfl, rfl⟩
  · cases quote : isQuote b with
    | true =>
      rw [Mode.marks, Mode.step_code_quote quote]
      exact ⟨.opening b, _, rfl, rfl⟩
    | false =>
      rw [Mode.marks, Mode.step_code quote slash]
      exact ⟨.code b, _, rfl, rfl⟩

end Gaps

section Edges

variable {s b : List Char} {c : Char} {k : Mark} {ms : List Mark}

theorem isShown_mark (hc : isBlank c = false) (p : Place) : (p.mark c).isShown = true := by
  cases p with
  | code =>
    cases hq : isQuote c with
    | false => simp [Place.mark_code hq, Mark.isShown, hc]
    | true => rw [Place.mark_quote hq]; rfl
  | literal q => rfl
  | escape q => rfl

theorem isShown_of_char (hk : isBlank k.char = false) : k.isShown = true := by
  cases k with
  | code c => simpa [Mark.isShown, Mark.char] using hk
  | opening c => rfl
  | inside c => rfl

theorem shown_blanks (hb : Blank b) (s : List Char) :
    shown (Place.code.marks (b ++ s)) = shown (Place.code.marks s) := by
  have plain : Unquoted b := .of_blank hb
  rw [Place.marks_append, Place.after_code plain, Place.marks_code plain, shown_append,
    shown_map_code, filter_blank hb]
  rfl

/-- Blanks in the code do not show. -/
theorem shown_gap (closed : Place.code.after s = .code) (hb : Blank b) (t : List Char) :
    shown (Place.code.marks (s ++ (b ++ t))) =
      shown (Place.code.marks s) ++ shown (Place.code.marks t) := by
  rw [Place.marks_append, closed, shown_append, shown_blanks hb]

theorem shown_append_blanks (closed : Place.code.after s = .code) (hb : Blank b) :
    shown (Place.code.marks (s ++ b)) = shown (Place.code.marks s) := by
  have gap := shown_gap closed hb []
  rwa [List.append_nil, show shown (Place.code.marks []) = [] from rfl, List.append_nil] at gap

/-- The first thing that is shown stands behind blanks only. -/
theorem exists_first (h : shown (Place.code.marks s) = k :: ms) :
    ∃ l y, s = l ++ k.char :: y ∧ Blank l := by
  induction s with
  | nil => cases h
  | cons c s ih =>
    cases hc : isBlank c with
    | true =>
      have single : Blank [c] := List.forall_mem_singleton.2 hc
      rw [← List.singleton_append, shown_blanks single] at h
      obtain ⟨l, y, rfl, hl⟩ := ih h
      exact ⟨c :: l, y, rfl, List.forall_mem_cons.2 ⟨hc, hl⟩⟩
    | false =>
      rw [Place.marks, shown, List.filter_cons, isShown_mark hc, if_pos rfl] at h
      rw [← (List.cons.inj h).1, Place.char_mark]
      exact ⟨[], s, rfl, blank_nil⟩

/-- Behind the last thing that is shown stand blanks only, if the literals close. -/
theorem exists_last (closed : Place.code.after s = .code)
    (h : shown (Place.code.marks s) = ms ++ [k]) : ∃ x e, s = x ++ k.char :: e ∧ Blank e := by
  induction s using List.reverseRecOn with
  | nil => exact absurd h.symm (by simp [shown, Place.marks])
  | append_singleton s c ih =>
    cases hc : isBlank c with
    | true =>
      have single : Blank [c] := List.forall_mem_singleton.2 hc
      have before := closed_of_blanks single closed
      rw [shown_append_blanks before single] at h
      obtain ⟨x, e, rfl, he⟩ := ih before h
      exact ⟨x, e ++ [c], by simp, he.append single⟩
    | false =>
      have one : shown ((Place.code.after s).marks [c]) = [(Place.code.after s).mark c] := by
        rw [Place.marks, shown, List.filter_cons, isShown_mark hc, if_pos rfl]
        rfl
      rw [Place.marks_append, shown_append, one] at h
      have last := (List.cons.inj (List.append_inj_right' h rfl)).1
      rw [← last, Place.char_mark]
      exact ⟨s, [], rfl, blank_nil⟩

end Edges

section Gapped

/-- What a text shows: its literals, and its code without comments and blanks. -/
def visible (s : List Char) : List Mark := shown (Mode.code.marks s)

/-- In the text `x ++ a :: (w ++ b :: y)` two characters that show have blanks and comments between
them, outside the literals. -/
structure Gapped (x : List Char) (a : Char) (w : List Char) (b : Char) (y : List Char) : Prop where
  left : isBlank a = false
  right : isBlank b = false
  outside : ¬ (Mode.code.after x).InComment
  plain : (Mode.code.after (x ++ [a])).IsPlain
  filler : Filler w
  filled : w ≠ []
  freeLeft : ¬ OpensComment a w
  freeRight : ¬ OpensComment b y

variable {x w y : List Char} {a b : Char}

theorem Gapped.laid_out (h : Gapped x a w b y) :
    ∃ x' g y', tidy (Mode.code.uncommented (x ++ a :: (w ++ b :: y))) = x' ++ a :: (g ++ b :: y') ∧
      g ≠ [] ∧ Blank g ∧ shown (Place.code.marks (x' ++ [a])) = visible (x ++ [a]) := by
  have apart : Mode.code.after (x ++ [a]) = .slash →
      ∀ d, w.head? = some d → isCommentSign d = false := by
    intro slash d hd
    rw [Mode.after_append] at slash
    cases sign : isCommentSign d with
    | false => rfl
    | true => exact absurd ⟨Mode.eq_slash_of_step slash, d, hd, sign⟩ h.freeLeft
  obtain ⟨g, filled, hg, left⟩ := h.filler.uncommented h.filled h.plain apart
  have whole := left (b :: y)
  rw [List.append_assoc, List.singleton_append] at whole
  obtain ⟨c, g, rfl⟩ := List.exists_cons_of_ne_nil filled
  obtain ⟨hc, hg⟩ := List.forall_mem_cons.1 hg
  have closed : Place.code.after (Mode.code.uncommented (x ++ [a])) = .code :=
    (Mode.stripped .code (x ++ [a])).after.trans h.plain.place
  obtain ⟨s, c', t, split, hc', closed', same⟩ :=
    tidy_blank closed hc (g ++ Mode.code.uncommented (b :: y))
  rw [← List.cons_append, ← whole] at split
  rw [marks_uncommented] at same
  have behind : shown (Place.code.marks t) = visible (b :: y) := by
    have blanks : Blank (c :: g) := List.forall_mem_cons.2 ⟨hc, hg⟩
    have single : Blank [c'] := List.forall_mem_singleton.2 hc'
    have laid := (tidied (Mode.stripped .code (x ++ a :: (w ++ b :: y))).clean).shown
    have front : s ++ c' :: t = s ++ ([c'] ++ t) := rfl
    rw [split, front, shown_gap closed' single, same, whole, shown_gap closed blanks,
      marks_uncommented, marks_uncommented] at laid
    exact List.append_cancel_left laid
  -- The character in front of the gap is the last one shown before the blank that is left,
  obtain ⟨ms, k, last, rfl⟩ := Mode.exists_marks_last h.outside h.plain
  have ends : shown (Place.code.marks s) = shown ms ++ [k] := by
    rw [same, last, shown_append]
    simp [shown, isShown_of_char h.left]
  obtain ⟨x', e, rfl, he⟩ := exists_last closed' ends
  -- and the character behind the gap is the first one shown behind it.
  obtain ⟨k', ms', first, rfl⟩ := exists_marks_cons h.freeRight
  have begins : shown (Place.code.marks t) = k' :: shown ms' := by
    rw [behind, visible, first]
    simp [shown, isShown_of_char h.right]
  obtain ⟨l, y', rfl, hl⟩ := exists_first begins
  refine ⟨x', e ++ c' :: l, y', by rw [split]; simp, by simp,
    he.append (List.forall_mem_cons.2 ⟨hc', hl⟩), ?_⟩
  have regroup : x' ++ k.char :: e = x' ++ [k.char] ++ e := by simp
  rw [regroup] at closed' same
  rw [visible, ← same, shown_append_blanks (closed_of_blanks he closed') he]

/-- Trimming keeps what stands around a gap. -/
theorem Gapped.kept (h : Gapped x a w b y) :
    ∃ x' g y', trim (tidy (Mode.code.uncommented (x ++ a :: (w ++ b :: y)))) =
        x' ++ a :: (g ++ b :: y') ∧
      g ≠ [] ∧ Blank g ∧ visible (x' ++ [a]) = visible (x ++ [a]) := by
  obtain ⟨x', g, y', split, filled, hg, same⟩ := h.laid_out
  obtain ⟨l, hl, hx⟩ := exists_trimStart x'
  have clean : Uncommented .code (l ++ (trimStart x' ++ [a])) := by
    have whole := (tidied (Mode.stripped .code (x ++ a :: (w ++ b :: y))).clean).clean
    have regroup : x' ++ a :: (g ++ b :: y') = x' ++ [a] ++ (g ++ b :: y') := by simp
    rw [split, regroup] at whole
    rw [← List.append_assoc, ← hx]
    exact whole.append.1
  refine ⟨trimStart x', g, trimEnd y', ?_, filled, hg, ?_⟩
  · rw [split, trim_append_cons h.left, trimEnd_append_cons h.right]
  · rw [visible, (clean.of_blank hl).marks_code, ← shown_blanks hl, ← List.append_assoc, ← hx, same]

end Gapped

end HostPlan.Source
