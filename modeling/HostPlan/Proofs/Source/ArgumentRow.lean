import HostPlan.Proofs.Source.Enclosure
import HostPlan.Proofs.Source.Separation
/-!
Rows of arguments. Cutting a text into its arguments undoes joining them by commas: of texts that no
comma divides it returns each one, and whatever stands between two matching parentheses is such a row
of texts, of which only a blank last one is left out.
-/
namespace HostPlan.Source

open Text

/-- Every comma that is code stands in brackets of the text. -/
def Undivided (s : List Char) : Prop :=
  ∀ x y, s = x ++ ',' :: y → Place.code.after x = .code → depth (Place.code.marks x) ≠ 0

/-- A text that may stand between two commas. -/
structure Piece (s : List Char) : Prop where
  enclosed : Enclosed s
  undivided : Undivided s

instance : DecidablePred Undivided := fun s =>
  decidable_of_iff (∀ x ∈ s.inits, s = x ++ ',' :: s.drop (x.length + 1) →
      Place.code.after x = .code → depth (Place.code.marks x) ≠ 0) (by
    simp only [List.mem_inits]
    constructor
    · rintro h x y rfl
      exact h x (List.prefix_append x _) (by simp)
    · intro h x _ split
      exact h x _ split)

instance : DecidablePred Piece := fun s =>
  decidable_of_iff (Enclosed s ∧ Undivided s) ⟨fun h => ⟨h.1, h.2⟩, fun h => ⟨h.1, h.2⟩⟩

section Parts

variable {s t b l r : List Char}

theorem Piece.uncut (h : Piece s) : Uncut s :=
  h.enclosed.uncut h.undivided

theorem Enclosed.behind (hs : Enclosed s) (h : Enclosed (s ++ t)) : Enclosed t := by
  have after := h.after
  have above := h.above
  have depth := h.depth
  rw [Place.after_append, hs.after] at after
  rw [Place.marks_append, hs.after, above_append, hs.depth] at above
  rw [Place.marks_append, hs.after, depth_append, hs.depth, Int.zero_add] at depth
  exact ⟨after, above.2, depth⟩

theorem Enclosed.of_append_blank (hb : Blank b) (h : Enclosed (s ++ b)) : Enclosed s := by
  have after := closed_of_blanks hb h.after
  have above := h.above
  have depth := h.depth
  rw [Place.marks_append, above_append] at above
  rw [Place.marks_append, after, depth_append, (Enclosed.of_blank hb).depth, Int.add_zero] at depth
  exact ⟨after, above.1, depth⟩

/-- What stands in an undivided text behind closed brackets is undivided too. -/
theorem Undivided.inner (hl : Enclosed l) (h : Undivided (l ++ s ++ r)) : Undivided s := by
  rintro x y rfl closed level
  apply h (l ++ x) (y ++ r)
  · simp
  · rw [Place.after_append, hl.after, closed]
  · rw [Place.marks_append, hl.after, depth_append, hl.depth, level]
    rfl

/-- Without the blanks around it a piece is a piece. -/
theorem Piece.trim (h : Piece s) : Piece (trim s) := by
  obtain ⟨l, r, hl, hr, split⟩ := exists_trim s
  have enclosed := h.enclosed
  have undivided := h.undivided
  rw [split] at enclosed undivided
  exact ⟨(Enclosed.of_blank hl).behind (enclosed.of_append_blank hr),
    undivided.inner (.of_blank hl)⟩

theorem Padded.uncut_of_piece {a x : List Char} (h : Padded a x) (ha : Piece a) : Uncut x := by
  obtain ⟨l, r, hl, hr, rfl⟩ := h
  exact ((Uncut.of_blank hl).append ha.uncut).append (.of_blank hr)

end Parts

section Cutting

variable {s : List Char}

/-- A text that a comma divides has a first comma that does. -/
theorem exists_first_comma (h : ¬ Undivided s) :
    ∃ x y, s = x ++ ',' :: y ∧ Place.code.after x = .code ∧ depth (Place.code.marks x) = 0 ∧
      Undivided x := by
  simp only [Undivided, not_forall, not_not] at h
  obtain ⟨x, y, split, closed, level⟩ := h
  induction hn : x.length using Nat.strongRecOn generalizing x y with
  | ind n ih =>
    by_cases undivided : Undivided x
    · exact ⟨x, y, split, closed, level, undivided⟩
    · -- A comma that divides the text before this one comes earlier.
      simp only [Undivided, not_forall, not_not] at undivided
      obtain ⟨x', y', rfl, closed', level'⟩ := undivided
      apply ih x'.length ?_ x' (y' ++ ',' :: y) ?_ closed' level' rfl
      · rw [← hn, List.length_append, List.length_cons]
        omega
      · rw [split, List.append_assoc]
        rfl

/-- A text with closed literals and brackets is a piece, or a piece and a comma before another one. -/
theorem Enclosed.piece_or_split (h : Enclosed s) :
    Piece s ∨ ∃ x y, s = x ++ ',' :: y ∧ Piece x ∧ Enclosed y := by
  by_cases undivided : Undivided s
  · exact .inl ⟨h, undivided⟩
  · obtain ⟨x, y, rfl, closed, level, first⟩ := exists_first_comma undivided
    have above := h.above
    rw [Place.marks_append, above_append] at above
    have front : Enclosed x := ⟨closed, above.1, level⟩
    have comma : Enclosed [','] := .of_flat (by decide) (List.forall_mem_singleton.2 ⟨rfl, rfl⟩)
    exact .inr ⟨x, y, rfl, ⟨front, first⟩, comma.behind (front.behind h)⟩

theorem Enclosed.pieces (h : Enclosed s) :
    ∃ xs x, [','].intercalate (xs ++ [x]) = s ∧ ∀ y ∈ xs ++ [x], Piece y := by
  induction hn : s.length using Nat.strongRecOn generalizing s with
  | ind n ih =>
    rcases h.piece_or_split with piece | ⟨x, t, rfl, piece, rest⟩
    · exact ⟨[], s, List.intercalate_singleton, List.forall_mem_singleton.2 piece⟩
    · have shorter : t.length < n := by
        rw [← hn, List.length_append, List.length_cons]
        omega
      obtain ⟨xs, last, joined, pieces⟩ := ih t.length shorter rest rfl
      refine ⟨x :: xs, last, ?_, List.forall_mem_cons.2 ⟨piece, pieces⟩⟩
      rw [List.cons_append, List.intercalate_cons_of_ne_nil (by simp), joined, List.append_assoc]
      rfl

/-- Arguments with commas between them are read back, the last one if it is not empty. -/
theorem arguments_padded {args xs : List (List Char)} (filled : args ≠ [])
    (pieces : ∀ a ∈ args, Text.trim a = a ∧ Piece a) (last : args.getLast? ≠ some [])
    (padded : List.Forall₂ Padded args xs) : arguments ([','].intercalate xs) = args := by
  have trimmed := map_trim_of_padded padded fun a ha => (pieces a ha).1
  have uncut : ∀ x ∈ xs, Uncut x := by
    intro x hx
    obtain ⟨a, ha, padded⟩ := exists_of_padded padded hx
    exact padded.uncut_of_piece (pieces a ha).2
  rcases List.eq_nil_or_concat xs with rfl | ⟨front, x, rfl⟩
  · exact absurd trimmed.symm filled
  · rw [List.concat_eq_append] at trimmed uncut ⊢
    have solid : Text.trim x ≠ [] := by
      intro none
      apply last
      rw [← trimmed, List.map_append, List.map_singleton, List.getLast?_concat, none]
    rw [arguments_concat uncut, if_neg solid, ← trimmed, List.map_append, List.map_singleton]

/-- The arguments of a text with closed literals and brackets are its pieces, trimmed. -/
theorem Enclosed.arguments (h : Enclosed s) :
    ∃ xs x, [','].intercalate (xs ++ [x]) = s ∧
      arguments s = xs.map Text.trim ++ (if Text.trim x = [] then [] else [Text.trim x]) ∧
      ∀ a ∈ Source.arguments s, Text.trim a = a ∧ Piece a := by
  obtain ⟨xs, x, joined, pieces⟩ := h.pieces
  have read := arguments_concat fun y hy => (pieces y hy).uncut
  rw [joined] at read
  refine ⟨xs, x, joined, read, ?_⟩
  intro a ha
  have trimmed : a ∈ (xs ++ [x]).map Text.trim := by
    rw [read] at ha
    rw [List.map_append, List.map_singleton]
    apply List.Sublist.subset _ ha
    apply List.Sublist.append_left
    split
    · exact List.nil_sublist _
    · exact .refl _
  obtain ⟨y, hy, rfl⟩ := List.mem_map.1 trimmed
  exact ⟨trim_trim y, (pieces y hy).trim⟩

/-- Cutting into arguments is the inverse of joining them by commas. A row of trimmed pieces comes
back, whatever blanks stand around the commas, if its last one is not empty; and between matching
parentheses the arguments are the trimmed pieces of a row whose join gives the text back, without
the last piece if it is blank. -/
theorem arguments_exact :
    (∀ args xs, args ≠ [] → (∀ a ∈ args, trim a = a ∧ Piece a) → args.getLast? ≠ some [] →
      List.Forall₂ Padded args xs → arguments ([','].intercalate xs) = args) ∧
    ∀ text start stop, text[start]? = some '(' → closingAt? text start = some stop →
      ∃ xs x, [','].intercalate (xs ++ [x]) = Span.part ⟨start + 1, stop⟩ text ∧
        arguments (Span.part ⟨start + 1, stop⟩ text) =
          xs.map trim ++ (if trim x = [] then [] else [trim x]) ∧
        ∀ a ∈ arguments (Span.part ⟨start + 1, stop⟩ text), trim a = a ∧ Piece a := by
  refine ⟨fun args xs filled pieces last padded => arguments_padded filled pieces last padded, ?_⟩
  intro text start stop opens closes
  obtain ⟨-, -, closed⟩ := (closingAt?_iff opens).1 closes
  exact closed.enclosed.arguments

/-- A row with an empty argument, one with commas in a literal and in brackets, and blanks. -/
def unevenRow : List (List Char) := ["a".toList, [], "f(1, '),')".toList]
def unevenRowLaid : List (List Char) := [" a ".toList, "\t".toList, "f(1, '),') ".toList]

theorem unevenRow_read_back :
    unevenRow ≠ [] ∧ (∀ a ∈ unevenRow, trim a = a ∧ Piece a) ∧ unevenRow.getLast? ≠ some [] ∧
      List.Forall₂ Padded unevenRow unevenRowLaid ∧
      arguments ([','].intercalate unevenRowLaid) = unevenRow ∧
      closingAt? "f(a, ,b, )".toList 1 = some 9 ∧
      ∃ xs x, [','].intercalate (xs ++ [x]) = "a, ,b, ".toList ∧
        arguments "a, ,b, ".toList = xs.map trim ++ (if trim x = [] then [] else [trim x]) ∧
        ∀ a ∈ arguments "a, ,b, ".toList, trim a = a ∧ Piece a := by
  have pieces : ∀ a ∈ unevenRow, trim a = a ∧ Piece a := by decide +kernel
  have padded : List.Forall₂ Padded unevenRow unevenRowLaid :=
    .cons ⟨[' '], [' '], blank_space, blank_space, rfl⟩
      (.cons ⟨['\t'], [], List.forall_mem_singleton.2 rfl, blank_nil, rfl⟩
        (.cons ⟨[], [' '], blank_nil, blank_space, rfl⟩ .nil))
  have closes : closingAt? "f(a, ,b, )".toList 1 = some 9 := by decide +kernel
  exact ⟨by decide, pieces, by decide, padded,
    arguments_exact.1 _ _ (by decide) pieces (by decide) padded, closes,
    arguments_exact.2 "f(a, ,b, )".toList 1 9 rfl closes⟩

end Cutting

end HostPlan.Source
