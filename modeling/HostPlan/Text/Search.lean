/-!
Searching a text for a piece of it, and cutting it into lines.
-/
namespace HostPlan.Text

/-- The text holds the piece somewhere. -/
def holds (piece : List Char) : List Char → Bool
  | [] => piece.isEmpty
  | c :: r => piece.isPrefixOf (c :: r) || holds piece r

/-- The text cut at a character, which belongs to no piece. -/
def cutAt (mark : Char) : List Char → List (List Char)
  | [] => [[]]
  | c :: r =>
    if c = mark then [] :: cutAt mark r
    else
      match cutAt mark r with
      | [] => [[c]]
      | p :: ps => (c :: p) :: ps

/-- Pieces with a text between them. -/
def joined (between : String) : List String → String
  | [] => ""
  | [s] => s
  | s :: r => s ++ between ++ joined between r

theorem holds_iff (piece s : List Char) : holds piece s = true ↔ piece <:+: s := by
  induction s with
  | nil => simp [holds, List.isEmpty_iff]
  | cons c r ih =>
    rw [holds, Bool.or_eq_true, ih, List.isPrefixOf_iff_prefix]
    constructor
    · intro h
      rcases h with h | h
      · exact h.isInfix
      · exact h.trans (List.suffix_cons c r).isInfix
    · intro h
      obtain ⟨a, b, hab⟩ := h
      cases a with
      | nil => exact Or.inl ⟨b, by simpa using hab⟩
      | cons d a =>
        have tail := (List.cons.inj hab).2
        exact Or.inr ⟨a, b, tail⟩

theorem cutAt_ne_nil (mark : Char) (s : List Char) : cutAt mark s ≠ [] := by
  cases s with
  | nil => simp [cutAt]
  | cons c r =>
    rw [cutAt]
    split
    · simp
    · split <;> simp

end HostPlan.Text
