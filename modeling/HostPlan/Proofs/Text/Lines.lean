import HostPlan.Text.Search
import Mathlib.Data.List.Basic
/-!
Texts cut into lines. Cutting undoes joining, piece by piece, even where a piece has line breaks of
its own.
-/
namespace HostPlan.Text

variable {mark : Char}

theorem cutAt_cons_self (mark : Char) (s : List Char) : cutAt mark (mark :: s) = [] :: cutAt mark s := by
  rw [cutAt, if_pos rfl]

theorem cutAt_cons_of_ne {c : Char} (h : c ≠ mark) (s : List Char) :
    ∃ p ps, cutAt mark s = p :: ps ∧ cutAt mark (c :: s) = (c :: p) :: ps := by
  rw [cutAt.eq_def mark (c :: s)]
  simp only [if_neg h]
  cases whole : cutAt mark s with
  | nil => exact absurd whole (cutAt_ne_nil mark s)
  | cons p ps => exact ⟨p, ps, rfl, rfl⟩

/-- A mark ends a piece. -/
theorem cutAt_append_cons (mark : Char) (s t : List Char) :
    cutAt mark (s ++ mark :: t) = cutAt mark s ++ cutAt mark t := by
  induction s with
  | nil => simp [cutAt_cons_self, cutAt]
  | cons c s ih =>
    by_cases h : c = mark
    · rw [h, List.cons_append, cutAt_cons_self, cutAt_cons_self, ih, List.cons_append]
    · obtain ⟨p, ps, whole, cut⟩ := cutAt_cons_of_ne h (s ++ mark :: t)
      obtain ⟨p', ps', whole', cut'⟩ := cutAt_cons_of_ne h s
      rw [ih, whole', List.cons_append] at whole
      obtain ⟨rfl, rfl⟩ := List.cons.inj whole
      rw [List.cons_append, cut, cut', List.cons_append]

/-- A text without marks stays in front of the first piece. -/
theorem cutAt_append_of_not_mem {s : List Char} (h : mark ∉ s) (t : List Char) :
    ∃ p ps, cutAt mark t = p :: ps ∧ cutAt mark (s ++ t) = (s ++ p) :: ps := by
  induction s with
  | nil =>
    cases whole : cutAt mark t with
    | nil => exact absurd whole (cutAt_ne_nil mark t)
    | cons p ps => exact ⟨p, ps, rfl, whole⟩
  | cons c s ih =>
    obtain ⟨p, ps, whole, cut⟩ := ih fun mem => h (List.mem_cons_of_mem c mem)
    have other : c ≠ mark := by
      rintro rfl
      exact h List.mem_cons_self
    obtain ⟨p', ps', whole', cut'⟩ := cutAt_cons_of_ne other (s ++ t)
    rw [cut] at whole'
    obtain ⟨rfl, rfl⟩ := List.cons.inj whole'
    exact ⟨p, ps, whole, cut'⟩

theorem cutAt_of_not_mem {s : List Char} (h : mark ∉ s) : cutAt mark s = [s] := by
  obtain ⟨p, ps, whole, cut⟩ := cutAt_append_of_not_mem h []
  rw [cutAt] at whole
  obtain ⟨rfl, rfl⟩ := List.cons.inj whole
  simpa using cut

theorem not_mem_of_mem_cutAt {s p : List Char} (h : p ∈ cutAt mark s) : mark ∉ p := by
  induction s generalizing p with
  | nil =>
    rw [cutAt, List.mem_singleton] at h
    exact h ▸ List.not_mem_nil
  | cons c s ih =>
    by_cases other : c = mark
    · rw [other, cutAt_cons_self] at h
      rcases List.mem_cons.1 h with rfl | h
      · exact List.not_mem_nil
      · exact ih h
    · obtain ⟨q, qs, whole, cut⟩ := cutAt_cons_of_ne other s
      rw [cut] at h
      rw [whole] at ih
      rcases List.mem_cons.1 h with rfl | h
      · exact List.not_mem_cons_of_ne_of_not_mem (Ne.symm other) (ih List.mem_cons_self)
      · exact ih (List.mem_cons_of_mem q h)

/-- The pieces with the mark between them are the text. -/
theorem intercalate_cutAt (mark : Char) (s : List Char) :
    [mark].intercalate (cutAt mark s) = s := by
  induction s with
  | nil => simp [cutAt]
  | cons c s ih =>
    by_cases h : c = mark
    · rw [h, cutAt_cons_self, List.intercalate_cons_of_ne_nil (cutAt_ne_nil mark s), ih]
      rfl
    · obtain ⟨p, ps, whole, cut⟩ := cutAt_cons_of_ne h s
      rw [whole] at ih
      rw [cut]
      cases ps with
      | nil =>
        rw [List.intercalate_singleton] at ih ⊢
        rw [ih]
      | cons q ps =>
        rw [List.intercalate_cons_cons] at ih ⊢
        rw [← ih]
        rfl

def lines (s : String) : List (List Char) := cutAt '\n' s.toList

theorem lines_append (s t : String) : lines (s ++ "\n" ++ t) = lines s ++ lines t := by
  have whole : (s ++ "\n" ++ t).toList = s.toList ++ '\n' :: t.toList := by simp
  rw [lines, whole, cutAt_append_cons]
  rfl

/-- Cutting at the mark that stands between the pieces cuts each of them. -/
theorem cutAt_joined {between : String} (h : between.toList = [mark]) {pieces : List String}
    (filled : pieces ≠ []) :
    cutAt mark (joined between pieces).toList = pieces.flatMap fun s => cutAt mark s.toList := by
  induction pieces with
  | nil => exact absurd rfl filled
  | cons s rest ih =>
    cases rest with
    | nil => simp [joined]
    | cons t rest =>
      have first : (joined between (s :: t :: rest)).toList =
          s.toList ++ mark :: (joined between (t :: rest)).toList := by
        simp [joined, h]
      rw [first, cutAt_append_cons, ih (List.cons_ne_nil t rest)]
      rfl

theorem lines_joined {pieces : List String} (h : pieces ≠ []) :
    lines (joined "\n" pieces) = pieces.flatMap lines :=
  cutAt_joined rfl h

/-- Words with a blank between them. -/
theorem words_joined {words : List String} (h : words ≠ [])
    (whole : ∀ w ∈ words, ' ' ∉ w.toList) :
    cutAt ' ' (joined " " words).toList = words.map String.toList := by
  rw [cutAt_joined rfl h, List.flatMap_congr fun w hw => cutAt_of_not_mem (whole w hw)]
  exact List.flatMap_pure_eq_map String.toList words

end HostPlan.Text
