import HostPlan.Proofs.Source.Place
/-!
Nesting of brackets. The depth of a text counts the brackets that it opens less those that it closes;
a text that never closes more than it has opened ends no group of brackets that was open before it.
-/
namespace HostPlan.Source

open Text

/-- How a mark changes the number of open brackets. -/
def Mark.weight : Mark → Int
  | .code c => if isOpener c then 1 else if isCloser c then -1 else 0
  | _ => 0

theorem not_bracket_of_isBlank {c : Char} (h : isBlank c = true) :
    isOpener c = false ∧ isCloser c = false := by
  constructor
  · cases ho : isOpener c with
    | false => rfl
    | true =>
      simp only [isOpener, Bool.or_eq_true, beq_iff_eq] at ho
      rcases ho with (rfl | rfl) | rfl <;> cases h
  · cases ho : isCloser c with
    | false => rfl
    | true =>
      simp only [isCloser, Bool.or_eq_true, beq_iff_eq] at ho
      rcases ho with (rfl | rfl) | rfl <;> cases h

theorem weight_of_isBlank {c : Char} (h : isBlank c = true) : (Mark.code c).weight = 0 := by
  simp [Mark.weight, not_bracket_of_isBlank h]

/-- The brackets opened less the brackets closed, those in literals left out. -/
def depth : List Mark → Int
  | [] => 0
  | m :: r => m.weight + depth r

@[simp] theorem depth_nil : depth [] = 0 := rfl

@[simp] theorem depth_cons (m : Mark) (r : List Mark) : depth (m :: r) = m.weight + depth r := rfl

theorem depth_append (ms ns : List Mark) : depth (ms ++ ns) = depth ms + depth ns := by
  induction ms with
  | nil => simp
  | cons m ms ih => simp [ih, Int.add_assoc]

/-- With so many brackets open before them, the marks never leave fewer than none. -/
def Above (k : Int) : List Mark → Prop
  | [] => True
  | m :: r => 0 ≤ k + m.weight ∧ Above (k + m.weight) r

theorem above_append {k : Int} {ms ns : List Mark} :
    Above k (ms ++ ns) ↔ Above k ms ∧ Above (k + depth ms) ns := by
  induction ms generalizing k with
  | nil => simp [Above]
  | cons m ms ih => simp [Above, ih, and_assoc, Int.add_assoc]

theorem Above.mono {k l : Int} {ms : List Mark} (h : Above k ms) (hkl : k ≤ l) : Above l ms := by
  induction ms generalizing k l with
  | nil => exact trivial
  | cons m ms ih => exact ⟨by have := h.1; omega, ih h.2 (by omega)⟩

theorem depth_of_flat {ms : List Mark} (flat : ∀ m ∈ ms, m.weight = 0) : depth ms = 0 := by
  induction ms with
  | nil => rfl
  | cons m ms ih =>
    obtain ⟨head, tail⟩ := List.forall_mem_cons.1 flat
    rw [depth_cons, head, ih tail]
    rfl

theorem above_of_flat {k : Int} {ms : List Mark} (start : 0 ≤ k) (flat : ∀ m ∈ ms, m.weight = 0) :
    Above k ms := by
  induction ms with
  | nil => exact trivial
  | cons m ms ih =>
    obtain ⟨head, tail⟩ := List.forall_mem_cons.1 flat
    rw [Above, head, Int.add_zero]
    exact ⟨start, ih tail⟩

namespace Place

theorem weight_mark_code (c : Char) :
    (Place.code.mark c).weight = if isOpener c then 1 else if isCloser c then -1 else 0 := by
  cases hq : isQuote c with
  | false => rw [mark_code hq, Mark.weight]
  | true =>
    simp only [isQuote, Bool.or_eq_true, beq_iff_eq] at hq
    rcases hq with rfl | rfl <;> rfl

theorem weight_mark {p : Place} (hp : p ≠ .code) (c : Char) : (p.mark c).weight = 0 := by
  cases p with
  | code => exact absurd rfl hp
  | literal q => rfl
  | escape q => rfl

end Place

section Closing

variable {p : Place} {d : Nat} {s t a b : List Char} {c : Char}

theorem next_closer (h : isCloser c = true) : Place.code.next c = .code := by
  simp only [isCloser, Bool.or_eq_true, beq_iff_eq] at h
  rcases h with (rfl | rfl) | rfl <;> rfl

theorem next_opener (h : isOpener c = true) : Place.code.next c = .code := by
  simp only [isOpener, Bool.or_eq_true, beq_iff_eq] at h
  rcases h with (rfl | rfl) | rfl <;> rfl

theorem not_opener_of_closer (h : isCloser c = true) : isOpener c = false := by
  simp only [isCloser, Bool.or_eq_true, beq_iff_eq] at h
  rcases h with (rfl | rfl) | rfl <;> rfl

/-- A character that leaves a bracket open is read over. -/
theorem untilClosed_cons {e : Nat} (left : (e : Int) + 1 = d + 1 + (p.mark c).weight) :
    untilClosed p (d + 1) (c :: s) =
      (untilClosed (p.next c) (e + 1) s).map fun (a, b) => (c :: a, b) := by
  rw [untilClosed]
  by_cases hp : p = .code
  · subst hp
    rw [Place.weight_mark_code] at left
    cases hc : isCloser c with
    | true =>
      rw [not_opener_of_closer hc, hc] at left
      simp only [Bool.false_eq_true, if_false, if_true] at left
      rw [if_pos ⟨rfl, rfl⟩, if_neg (by omega), next_closer hc]
      have same : d + 1 - 1 = e + 1 := by omega
      rw [same]
    | false =>
      rw [hc] at left
      rw [if_neg (by simp)]
      cases ho : isOpener c with
      | true =>
        rw [ho] at left
        simp only [if_true] at left
        have same : d + 1 + 1 = e + 1 := by omega
        simp [same]
      | false =>
        rw [ho] at left
        simp only [Bool.false_eq_true, if_false] at left
        have same : d = e := by omega
        simp [same]
  · rw [Place.weight_mark hp] at left
    have same : d = e := by omega
    simp [hp, same]

/-- A text that closes no bracket opened before it is read over. -/
theorem untilClosed_append {e : Nat} (above : Above d (p.marks s))
    (rise : (e : Int) = d + depth (p.marks s)) (t : List Char) :
    untilClosed p (d + 1) (s ++ t) =
      (untilClosed (p.after s) (e + 1) t).map fun (a, b) => (s ++ a, b) := by
  induction s generalizing p d with
  | nil =>
    have same : e = d := by
      simp only [Place.marks, depth_nil] at rise
      omega
    subst same
    simp
  | cons c s ih =>
    rw [Place.marks, depth_cons] at rise
    obtain ⟨f, hf⟩ := Int.eq_ofNat_of_zero_le above.1
    have rest := above.2
    rw [hf] at rest
    rw [List.cons_append, untilClosed_cons (e := f) (by omega), ih rest (by omega), Option.map_map]
    rfl

theorem untilClosed_eq_none (above : Above d (p.marks s)) : untilClosed p (d + 1) s = none := by
  induction s generalizing p d with
  | nil => rfl
  | cons c s ih =>
    obtain ⟨f, hf⟩ := Int.eq_ofNat_of_zero_le above.1
    have rest := above.2
    rw [hf] at rest
    rw [untilClosed_cons (e := f) (by omega), ih rest]
    rfl

theorem untilClosed_append_of_some (h : untilClosed p d s = some (a, b)) (t : List Char) :
    untilClosed p d (s ++ t) = some (a, b ++ t) := by
  induction s generalizing p d a with
  | nil => cases h
  | cons c s ih =>
    rw [untilClosed] at h
    rw [List.cons_append, untilClosed]
    split at h
    · rename_i closer
      rw [if_pos closer]
      split at h
      · rename_i last
        rw [if_pos last]
        split at h
        · rename_i round
          cases h
          rw [if_pos round]
        · cases h
      · rename_i more
        obtain ⟨⟨a', b'⟩, h', he⟩ := Option.map_eq_some_iff.1 h
        cases he
        rw [if_neg more, ih h']
        rfl
    · rename_i other
      obtain ⟨⟨a', b'⟩, h', he⟩ := Option.map_eq_some_iff.1 h
      cases he
      rw [if_neg other]
      simp only [ih h']
      rfl

/-- What was not closed is not closed by a text that closes no more than it opens. -/
theorem untilClosed_append_of_none (h : untilClosed p (d + 1) s = none)
    (ht : ∀ e, untilClosed (p.after s) (e + 1) t = none) :
    untilClosed p (d + 1) (s ++ t) = none := by
  induction s generalizing p d with
  | nil => exact ht d
  | cons c s ih =>
    rw [untilClosed] at h
    rw [List.cons_append, untilClosed]
    split at h
    · rename_i closer
      have next : p.next c = .code := closer.1 ▸ next_closer closer.2
      rw [Place.after_cons, next] at ht
      rw [if_pos closer]
      split at h
      · rename_i last
        rw [if_pos last]
        split at h
        · cases h
        · rename_i other
          rw [if_neg other]
      · rename_i more
        obtain ⟨e, he⟩ : ∃ e, d + 1 - 1 = e + 1 := ⟨d - 1, by omega⟩
        rw [he] at h
        rw [if_neg more, he, ih (Option.map_eq_none_iff.1 h) ht]
        rfl
    · rename_i other
      rw [if_neg other]
      by_cases opens : p = .code ∧ isOpener c = true
      · simp only [if_pos opens] at h ⊢
        rw [ih (Option.map_eq_none_iff.1 h) ht]
        rfl
      · simp only [if_neg opens] at h ⊢
        rw [ih (Option.map_eq_none_iff.1 h) ht]
        rfl

end Closing

section Prefixes

theorem Mode.depth_finish (m : Mode) : depth m.finish = 0 := by
  cases m <;> rfl

/-- The marks of a text never leave fewer brackets than none when those of its prefixes do not. -/
theorem above_of_prefixes {m : Mode} {k : Int} {s : List Char}
    (h : ∀ p, p <+: s → 0 ≤ k + depth (m.marks p)) : Above k (m.marks s) := by
  have start := h [] List.nil_prefix
  rw [Mode.marks, m.depth_finish] at start
  induction s generalizing m k with
  | nil =>
    cases m with
    | slash => exact ⟨start, trivial⟩
    | _ => exact trivial
  | cons c s ih =>
    have onwards (p : List Char) (hp : p <+: s) :
        0 ≤ k + depth (m.step c).2 + depth ((m.step c).1.marks p) := by
      have longer := h (c :: p) (List.cons_prefix_cons.2 ⟨rfl, hp⟩)
      rwa [Mode.marks, depth_append, ← Int.add_assoc] at longer
    have next := onwards [] List.nil_prefix
    rw [Mode.marks, Mode.depth_finish] at next
    rw [Mode.marks, above_append]
    refine ⟨?_, ih onwards next⟩
    rcases m.step_marks c with none | ⟨k, -, one | two⟩
    · rw [none]
      exact trivial
    · rw [one] at next ⊢
      simp only [depth_cons, depth_nil] at next
      exact ⟨by omega, trivial⟩
    · rw [two] at next ⊢
      have slash : (Mark.code '/').weight = 0 := rfl
      simp only [depth_cons, depth_nil, slash] at next
      exact ⟨by omega, by omega, trivial⟩

end Prefixes

end HostPlan.Source
