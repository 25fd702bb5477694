import HostPlan.Proofs.Source.Nesting
/-!
Texts that end a statement. Whatever is read from the start of such a text up to a character other
than its last semicolon is read the same way when another text follows.
-/
namespace HostPlan.Source

open Text

/-- The text ends with the semicolon of a statement. -/
def Ends (s : List Char) : Prop := ∃ v, s = v ++ [';']

namespace Ends

variable {s x : List Char} {p : Char → Bool}

theorem ne_nil (h : Ends s) : s ≠ [] := by
  obtain ⟨v, rfl⟩ := h
  simp

theorem suffix (h : Ends (x ++ s)) (hs : s ≠ []) : Ends s := by
  obtain ⟨v, hv⟩ := h
  rcases List.append_eq_append_iff.1 hv with ⟨r, -, rfl⟩ | ⟨r, -, hr⟩
  · exact ⟨r, rfl⟩
  · cases r with
    | nil => exact ⟨[], hr.symm⟩
    | cons c r =>
      have none : r = [] ∧ s = [] := by
        have length := congrArg List.length hr
        simp only [List.length_append, List.length_cons, List.length_nil] at length
        exact ⟨List.eq_nil_of_length_eq_zero (by omega), List.eq_nil_of_length_eq_zero (by omega)⟩
      exact absurd none.2 hs

theorem tail {c : Char} (h : Ends (c :: s)) (hc : c ≠ ';') : Ends s := by
  refine suffix (x := [c]) h ?_
  rintro rfl
  obtain ⟨v, hv⟩ := h
  cases v with
  | nil => exact hc (List.cons.inj hv).1
  | cons d v => simp at hv

theorem dropWhile_append (h : Ends s) (stop : p ';' = false) (w : List Char) :
    (s ++ w).dropWhile p = s.dropWhile p ++ w ∧ Ends (s.dropWhile p) := by
  induction s with
  | nil => exact absurd rfl h.ne_nil
  | cons c s ih =>
    rw [List.cons_append, List.dropWhile_cons, List.dropWhile_cons]
    split
    · rename_i drops
      refine ih (h.tail ?_)
      rintro rfl
      rw [stop] at drops
      cases drops
    · exact ⟨rfl, h⟩

theorem takeWhile_append (h : Ends s) (stop : p ';' = false) (w : List Char) :
    (s ++ w).takeWhile p = s.takeWhile p := by
  induction s with
  | nil => exact absurd rfl h.ne_nil
  | cons c s ih =>
    rw [List.cons_append, List.takeWhile_cons, List.takeWhile_cons]
    split
    · rename_i takes
      rw [ih (h.tail ?_)]
      rintro rfl
      rw [stop] at takes
      cases takes
    · rfl

theorem trimStart_append (h : Ends s) (w : List Char) : trimStart (s ++ w) = trimStart s ++ w :=
  (h.dropWhile_append (by decide) w).1

theorem trimStart (h : Ends s) : Ends (trimStart s) :=
  (h.dropWhile_append (by decide) []).2

theorem afterWord_append (h : Ends s) (w : List Char) : afterWord (s ++ w) = afterWord s ++ w :=
  (h.dropWhile_append (by decide) w).1

theorem afterWord (h : Ends s) : Ends (afterWord s) :=
  (h.dropWhile_append (by decide) []).2

theorem leadingWord_append (h : Ends s) (w : List Char) : leadingWord (s ++ w) = leadingWord s :=
  h.takeWhile_append (by decide) w

end Ends

section TypeArguments

variable {d : Nat} {s r : List Char}

theorem afterTypeArguments_of_ends (h : Ends s) (w : List Char) :
    afterTypeArguments d (s ++ w) = (afterTypeArguments d s).map (· ++ w) := by
  induction s generalizing d with
  | nil => exact absurd rfl h.ne_nil
  | cons c s ih =>
    rw [List.cons_append, afterTypeArguments, afterTypeArguments]
    split
    · rename_i opens
      exact ih (h.tail (by rw [opens]; decide))
    · split
      · rename_i closes
        have rest := h.tail (by rw [closes]; decide)
        split
        · rw [(rest.dropWhile_append (by decide) w).1]
          rfl
        · exact ih rest
      · split
        · rfl
        · rename_i other
          exact ih (h.tail fun stop => other (.inr (.inr stop)))

theorem ends_of_afterTypeArguments (h : Ends s) (hr : afterTypeArguments d s = some r) : Ends r := by
  induction s generalizing d with
  | nil => exact absurd rfl h.ne_nil
  | cons c s ih =>
    rw [afterTypeArguments] at hr
    split at hr
    · rename_i opens
      exact ih (h.tail (by rw [opens]; decide)) hr
    · split at hr
      · rename_i closes
        have rest := h.tail (by rw [closes]; decide)
        split at hr
        · rw [← Option.some.inj hr]
          exact (rest.dropWhile_append (by decide) []).2
        · exact ih rest hr
      · split at hr
        · cases hr
        · rename_i other
          exact ih (h.tail fun stop => other (.inr (.inr stop))) hr

theorem skipTypeArguments_of_ends (h : Ends s) (w : List Char) :
    skipTypeArguments (s ++ w) = (skipTypeArguments s).map (· ++ w) := by
  cases s with
  | nil => exact absurd rfl h.ne_nil
  | cons c s =>
    by_cases opens : c = '<'
    · subst opens
      exact afterTypeArguments_of_ends (h.tail (by decide)) w
    · have same (t : List Char) : skipTypeArguments (c :: t) = some (c :: t) := by
        rw [skipTypeArguments]
        rintro r hr
        exact opens (List.cons.inj hr).1
      rw [List.cons_append, same, same]
      rfl

theorem ends_of_skipTypeArguments (h : Ends s) (hr : skipTypeArguments s = some r) : Ends r := by
  unfold skipTypeArguments at hr
  split at hr
  · exact ends_of_afterTypeArguments (h.tail (by decide)) hr
  · rw [← Option.some.inj hr]
    exact h

end TypeArguments

end HostPlan.Source
