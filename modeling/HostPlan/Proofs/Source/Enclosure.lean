import HostPlan.Proofs.Source.Extraction
import HostPlan.Proofs.Source.Literal
/-!
What two matching parentheses enclose. A text is closed if it is made of plain code, of literals and
of groups of brackets with a closed text inside; the bracket that ends a group may be of another kind
than the one that begins it. The parenthesis that closes a group is the one behind a closed text, and
none is found where no closed text stands before a parenthesis.
-/
namespace HostPlan.Source

section Grammar

/-- What follows the opening quote of a literal, up to its closing one. -/
inductive Ending (q : Char) : List Char → Prop where
  | quote : Ending q [q]
  | plain {c : Char} {r : List Char} (other : c ≠ q) (single : c ≠ '\\') (rest : Ending q r) :
      Ending q (c :: r)
  | escape {r : List Char} (c : Char) (rest : Ending q r) : Ending q ('\\' :: c :: r)

/-- Code, literals and groups of brackets in a row. -/
inductive Closed : List Char → Prop where
  | nil : Closed []
  | plain {c : Char} {r : List Char} (quote : isQuote c = false) (opener : isOpener c = false)
      (closer : isCloser c = false) (rest : Closed r) : Closed (c :: r)
  | literal {q : Char} {l r : List Char} (hq : isQuote q = true) (ending : Ending q l)
      (rest : Closed r) : Closed (q :: (l ++ r))
  | group {o c : Char} {a r : List Char} (opens : isOpener o = true) (inner : Closed a)
      (shuts : isCloser c = true) (rest : Closed r) : Closed (o :: (a ++ c :: r))

/-- A closed text for each of so many brackets that are open, with the bracket that closes it, and one
closed text behind them. -/
inductive Levels : Nat → List Char → Prop where
  | last {a : List Char} (closed : Closed a) : Levels 0 a
  | more {d : Nat} {c : Char} {a b : List Char} (closed : Closed a) (shuts : isCloser c = true)
      (rest : Levels d b) : Levels (d + 1) (a ++ c :: b)

/-- Texts with such levels, read on from a place. -/
inductive LevelsFrom (d : Nat) : Place → List Char → Prop where
  | code {a : List Char} (levels : Levels d a) : LevelsFrom d .code a
  | literal {q : Char} {l b : List Char} (ending : Ending q l) (levels : Levels d b) :
      LevelsFrom d (.literal q) (l ++ b)
  | escape {q : Char} {l b : List Char} (c : Char) (ending : Ending q l) (levels : Levels d b) :
      LevelsFrom d (.escape q) (c :: (l ++ b))

end Grammar

section Soundness

variable {d : Nat} {q : Char} {a b l x s r : List Char}

theorem Ending.closes (hq : isQuote q = true) (h : Ending q l) : Closes q l := by
  induction h with
  | quote => exact .quote (ne_backslash_of_isQuote hq)
  | plain other single _ ih => exact ih.cons other single
  | escape c _ ih => exact ih.escape c

theorem Closes.enclosed (hq : isQuote q = true) (h : Closes q l) : Enclosed (q :: l) := by
  have marks : Place.code.marks (q :: l) = .opening q :: l.map .inside := by
    rw [Place.marks, Place.next_quote hq, Place.mark_quote hq, h.inside]
  have flat : ∀ m ∈ Place.code.marks (q :: l), m.weight = 0 := by
    intro m hm
    rw [marks, List.mem_cons, List.mem_map] at hm
    rcases hm with rfl | ⟨c, -, rfl⟩ <;> rfl
  refine ⟨?_, above_of_flat (Int.le_refl 0) flat, depth_of_flat flat⟩
  rw [Place.after_cons, Place.next_quote hq, h.ends]

/-- A group of brackets, whose kinds may differ, encloses what stands in it. -/
theorem Enclosed.group {o c : Char} (opens : isOpener o = true) (h : Enclosed a)
    (shuts : isCloser c = true) : Enclosed (o :: (a ++ [c])) := by
  have one : (Place.code.mark o).weight = 1 := by rw [Place.weight_mark_code, if_pos opens]
  have back : (Place.code.mark c).weight = -1 := by
    rw [Place.weight_mark_code, not_opener_of_closer shuts, if_pos shuts]
    rfl
  have marks : Place.code.marks (o :: (a ++ [c])) =
      Place.code.mark o :: (Place.code.marks a ++ [Place.code.mark c]) := by
    rw [Place.marks, next_opener opens, Place.marks_append, h.after]
    rfl
  refine ⟨?_, ?_, ?_⟩
  · rw [Place.after_cons, next_opener opens, Place.after_append, h.after, Place.after_cons,
      next_closer shuts]
    rfl
  · rw [marks, Above, one, above_append, h.depth]
    refine ⟨by omega, h.above.mono (by omega), ?_⟩
    rw [Above, back]
    exact ⟨by omega, trivial⟩
  · rw [marks, depth_cons, depth_append, h.depth, one, depth_cons, back]
    rfl

theorem Closed.enclosed (h : Closed a) : Enclosed a := by
  induction h with
  | nil => exact .of_blank Text.blank_nil
  | plain quote opener closer _ ih =>
    have single : Enclosed [_] := .of_flat (List.forall_mem_singleton.2 quote)
      (List.forall_mem_singleton.2 ⟨opener, closer⟩)
    exact single.append ih
  | literal hq ending _ ih => exact ((ending.closes hq).enclosed hq).append ih
  | @group o c a r opens _ shuts _ inside behind =>
    have whole : Enclosed (o :: (a ++ [c]) ++ r) := (inside.group opens shuts).append behind
    rwa [List.cons_append, List.append_assoc] at whole

end Soundness

section Completeness

variable {d : Nat} {p : Place} {q : Char} {a b l x s r : List Char}

/-- What may stand before every closed text may stand before the first of the levels. -/
theorem Levels.before (front : ∀ a, Closed a → Closed (x ++ a)) (h : Levels d b) :
    Levels d (x ++ b) := by
  cases h with
  | last closed => exact .last (front _ closed)
  | more closed shuts rest =>
    rw [← List.append_assoc]
    exact .more (front _ closed) shuts rest

/-- A bracket that opens makes one group of the first two levels. -/
theorem Levels.grouped {o : Char} (opens : isOpener o = true) (h : Levels (d + 1) b) :
    Levels d (o :: b) := by
  cases h with
  | @more _ c a b closed shuts rest =>
    have front : ∀ t, Closed t → Closed (o :: (a ++ [c]) ++ t) := by
      intro t ht
      rw [List.cons_append, List.append_assoc]
      exact .group opens closed shuts ht
    have whole := rest.before front
    rwa [List.cons_append, List.append_assoc] at whole

theorem Levels.literal (hq : isQuote q = true) (ending : Ending q l) (h : Levels d b) :
    Levels d (q :: (l ++ b)) :=
  h.before (x := q :: l) fun _ closed => .literal hq ending closed

/-- A character of code goes before the levels behind it, unless it closes a bracket. -/
theorem LevelsFrom.cons_code {e : Nat} {c : Char} (shuts : isCloser c = false)
    (deep : e = if isOpener c = true then d + 1 else d)
    (h : LevelsFrom e (Place.code.next c) a) : Levels d (c :: a) := by
  by_cases opens : isOpener c = true
  · rw [if_pos opens] at deep
    rw [next_opener opens, deep] at h
    cases h with
    | code levels => exact levels.grouped opens
  · rw [if_neg opens] at deep
    rw [deep] at h
    cases quote : isQuote c with
    | true =>
      rw [Place.next_quote quote] at h
      cases h with
      | literal ending levels => exact levels.literal quote ending
    | false =>
      rw [Place.next_code quote] at h
      cases h with
      | code levels =>
        apply levels.before (x := [c])
        intro t closed
        exact .plain quote (by simpa using opens) shuts closed

theorem LevelsFrom.cons_literal {c : Char} (h : LevelsFrom d ((Place.literal q).next c) a) :
    LevelsFrom d (.literal q) (c :: a) := by
  rw [Place.next_literal] at h
  split at h
  · rename_i backslash
    subst backslash
    cases h with
    | escape c ending levels => exact .literal (ending.escape c) levels
  · rename_i single
    split at h
    · rename_i same
      subst same
      cases h with
      | code levels => exact .literal .quote levels
    · rename_i other
      cases h with
      | literal ending levels => exact .literal (ending.plain other single) levels

/-- One character goes before the levels that are read behind it, whatever place it stands in. -/
theorem LevelsFrom.cons {e : Nat} {c : Char} (shuts : p = .code → isCloser c = false)
    (deep : e = if p = .code ∧ isOpener c = true then d + 1 else d)
    (h : LevelsFrom e (p.next c) a) : LevelsFrom d p (c :: a) := by
  cases p with
  | code => exact .code (h.cons_code (shuts rfl) (by simpa using deep))
  | literal q =>
    obtain rfl : e = d := by simpa using deep
    exact h.cons_literal
  | escape q =>
    obtain rfl : e = d := by simpa using deep
    cases h with
    | literal ending levels => exact .escape c ending levels

/-- What is read before the parenthesis that closes has a level for every bracket left open. -/
theorem levels_of_untilClosed (h : untilClosed p (d + 1) s = some (a, r)) : LevelsFrom d p a := by
  induction s generalizing p d a with
  | nil => cases h
  | cons c s ih =>
    rw [untilClosed] at h
    split at h
    · rename_i closer
      obtain ⟨rfl, shuts⟩ := closer
      split at h
      · split at h
        · rename_i last
          cases h
          obtain rfl : d = 0 := by omega
          exact .code (.last .nil)
        · cases h
      · rename_i more
        obtain ⟨e, rfl⟩ : ∃ e, d = e + 1 := ⟨d - 1, by omega⟩
        obtain ⟨⟨a', r'⟩, h', same⟩ := Option.map_eq_some_iff.1 h
        cases same
        cases ih h' with
        | code levels => exact .code (.more .nil shuts levels)
    · rename_i other
      obtain ⟨⟨a', r'⟩, h', same⟩ := Option.map_eq_some_iff.1 h
      cases same
      have deep : (if p = .code ∧ isOpener c = true then d + 1 + 1 else d + 1) =
          (if p = .code ∧ isOpener c = true then d + 1 else d) + 1 := by
        split <;> rfl
      rw [deep] at h'
      refine (ih h').cons ?_ rfl
      intro code
      simpa [code] using other

instance : DecidablePred Enclosed := fun a =>
  decidable_of_iff (untilClosed .code 1 (a ++ [')']) = some (a, []))
    ⟨enclosed_of_untilClosed, fun h => h.untilClosed []⟩

theorem closed_iff_enclosed : Closed a ↔ Enclosed a := by
  constructor
  · exact Closed.enclosed
  · intro h
    cases levels_of_untilClosed (d := 0) (h.untilClosed []) with
    | code levels =>
      cases levels with
      | last closed => exact closed

instance : DecidablePred Closed := fun _ => decidable_of_iff _ closed_iff_enclosed.symm

/-- The parenthesis that closes is the one behind a closed text. -/
theorem untilClosed_iff : untilClosed .code 1 s = some (a, r) ↔ s = a ++ ')' :: r ∧ Closed a := by
  rw [closed_iff_enclosed]
  constructor
  · intro h
    exact ⟨eq_append_of_untilClosed h, enclosed_of_untilClosed h⟩
  · rintro ⟨rfl, enclosed⟩
    exact enclosed.untilClosed r

end Completeness

section Positions

variable {text : List Char} {start stop : Nat}

/-- Where the group closes that opens at this position of the text. -/
def closingAt? (text : List Char) (start : Nat) : Option Nat :=
  (closingParen? (text.drop start)).map (start + ·)

theorem closingParen?_open (s : List Char) :
    closingParen? ('(' :: s) = (untilClosed .code 1 s).map fun (a, _) => 1 + a.length := by
  have first : untilClosed .code 0 ('(' :: s) =
      (untilClosed .code 1 s).map fun (a, b) => ('(' :: a, b) := rfl
  rw [closingParen?, first, Option.map_map]
  congr 1
  funext (a, _)
  exact Nat.add_comm a.length 1

theorem closingAt?_append_iff (p s : List Char) :
    closingAt? (p ++ '(' :: s) p.length = some stop ↔
      ∃ a r, s = a ++ ')' :: r ∧ Closed a ∧ p.length + 1 + a.length = stop := by
  rw [closingAt?, List.drop_left, closingParen?_open, Option.map_map, Option.map_eq_some_iff]
  constructor
  · rintro ⟨⟨a, r⟩, closes, rfl⟩
    obtain ⟨split, closed⟩ := untilClosed_iff.1 closes
    exact ⟨a, r, split, closed, Nat.add_assoc ..⟩
  · rintro ⟨a, r, split, closed, rfl⟩
    exact ⟨(a, r), untilClosed_iff.2 ⟨split, closed⟩, (Nat.add_assoc ..).symm⟩

/-- A text is cut at a position into what stands before and behind the character there. -/
theorem exists_split_at {c : Char} (h : text[start]? = some c) :
    ∃ p s, text = p ++ c :: s ∧ p.length = start := by
  obtain ⟨inside, rfl⟩ := List.getElem?_eq_some_iff.1 h
  refine ⟨text.take start, text.drop (start + 1), ?_, List.length_take_of_le inside.le⟩
  rw [← List.drop_eq_getElem_cons inside, List.take_append_drop]

theorem getElem?_behind (p s : List Char) (c : Char) (k : Nat) :
    (p ++ c :: s)[p.length + 1 + k]? = s[k]? := by
  rw [List.getElem?_append_right (by omega)]
  have behind : p.length + 1 + k - p.length = k + 1 := by omega
  rw [behind, List.getElem?_cons_succ]

theorem part_between (p a r : List Char) (c d : Char) :
    Span.part ⟨p.length + 1, p.length + 1 + a.length⟩ (p ++ c :: (a ++ d :: r)) = a := by
  have length : (p ++ [c] ++ a).length = p.length + 1 + a.length := by
    rw [List.length_append, List.length_append, List.length_singleton]
  have part := Span.part_eq (p ++ [c]) a (d :: r)
  rwa [length, List.length_append, List.length_singleton, List.append_assoc] at part

/-- The group that opens at a position closes at the parenthesis behind a closed text, and at no
other position. -/
theorem closingAt?_iff (opens : text[start]? = some '(') :
    closingAt? text start = some stop ↔
      start < stop ∧ text[stop]? = some ')' ∧ Closed (Span.part ⟨start + 1, stop⟩ text) := by
  obtain ⟨p, s, rfl, rfl⟩ := exists_split_at opens
  rw [closingAt?_append_iff]
  constructor
  · rintro ⟨a, r, rfl, closed, rfl⟩
    refine ⟨by omega, ?_, ?_⟩
    · rw [getElem?_behind, List.getElem?_append_right (Nat.le_refl _), Nat.sub_self]
      rfl
    · rwa [part_between]
  · rintro ⟨before, closes, closed⟩
    obtain ⟨k, rfl⟩ : ∃ k, stop = p.length + 1 + k := ⟨stop - (p.length + 1), by omega⟩
    rw [getElem?_behind] at closes
    obtain ⟨a, r, rfl, rfl⟩ := exists_split_at closes
    rw [part_between] at closed
    exact ⟨a, r, rfl, closed, rfl⟩

/-- The search for the parenthesis that closes accepts exactly the closed texts: it finds the
parenthesis behind any of them, it finds no other, and it fails only where there is none. -/
theorem matching_parenthesis_exact :
    (∀ p a s, Closed a →
      closingAt? (p ++ '(' :: (a ++ ')' :: s)) p.length = some (p.length + 1 + a.length)) ∧
    ∀ text start, text[start]? = some '(' →
      (∀ stop, closingAt? text start = some stop ↔
        start < stop ∧ text[stop]? = some ')' ∧ Closed (Span.part ⟨start + 1, stop⟩ text)) ∧
      ((∀ stop, start < stop → text[stop]? = some ')' →
        ¬ Closed (Span.part ⟨start + 1, stop⟩ text)) → closingAt? text start = none) := by
  refine ⟨?_, ?_⟩
  · intro p a s closed
    exact (closingAt?_append_iff p _).2 ⟨a, s, rfl, closed, rfl⟩
  · intro text start opens
    refine ⟨fun stop => closingAt?_iff opens, ?_⟩
    intro nowhere
    rw [Option.eq_none_iff_forall_ne_some]
    intro stop found
    obtain ⟨before, round, closed⟩ := (closingAt?_iff opens).1 found
    exact nowhere stop before round closed

/-- Brackets of two kinds, and a literal with a quote and a parenthesis in it. -/
def mixedBrackets : List Char := "a, [b), '\\')'".toList

theorem mixedBrackets_close :
    Closed mixedBrackets ∧
      closingAt? ('f' :: '(' :: (mixedBrackets ++ ')' :: ".X(".toList)) 1 = some 15 ∧
      (∀ stop, 1 < stop → "f(a]".toList[stop]? = some ')' →
        ¬ Closed (Span.part ⟨2, stop⟩ "f(a]".toList)) ∧
      closingAt? "f(a]".toList 1 = none := by
  have closed : Closed mixedBrackets := by decide +kernel
  have nowhere : ∀ stop, 1 < stop → "f(a]".toList[stop]? = some ')' →
      ¬ Closed (Span.part ⟨2, stop⟩ "f(a]".toList) := by
    intro stop _ round
    have member : ')' ∈ "f(a]".toList := List.mem_of_getElem? round
    exact absurd member (by decide)
  refine ⟨closed, ?_, nowhere, ?_⟩
  · exact matching_parenthesis_exact.1 ['f'] mixedBrackets ".X(".toList closed
  · exact (matching_parenthesis_exact.2 "f(a]".toList 1 rfl).2 nowhere

end Positions

end HostPlan.Source
