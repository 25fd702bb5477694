import HostPlan.Data.Yaml.Cursor
/-!
Moving over a text: what lies ahead behind a run of characters, and on which line and in which
column that is.
-/
namespace HostPlan.Yaml

/-- The text does not begin with a character of the class. -/
def Avoids (p : Char → Bool) (s : List Char) : Prop := ∀ c ∈ s.head?, p c = false

section Avoids

variable {p q : Char → Bool} {run r : List Char} {c : Char}

@[simp] theorem avoids_nil : Avoids p [] := nofun

@[simp] theorem avoids_cons : Avoids p (c :: r) ↔ p c = false := by simp [Avoids]

theorem Avoids.mono (avoids : Avoids p r) (less : ∀ c, q c = true → p c = true) : Avoids q r := by
  intro c head
  have other := avoids c head
  cases here : q c with
  | false => rfl
  | true => rw [less c here] at other; exact other

theorem Avoids.head {d : Char} (avoids : Avoids (· == d) r) : r.head? ≠ some d := fun head => by
  simpa using avoids d head

theorem takeWhile_append (all : ∀ c ∈ run, p c = true) (avoids : Avoids p r) :
    (run ++ r).takeWhile p = run := by
  rw [List.takeWhile_append_of_pos all]
  cases r with
  | nil => simp
  | cons c r => simp [avoids_cons.1 avoids]

end Avoids

/-- A character that takes one column and ends no line. -/
def isInline (c : Char) : Bool := !Fault.endsLine c && c != '\uFEFF'

theorem endsLine_of_isInline {c : Char} (h : isInline c = true) : Fault.endsLine c = false := by
  simp only [isInline, Bool.and_eq_true, Bool.not_eq_true'] at h
  exact h.1

theorem isInline_space : isInline ' ' = true := by decide

namespace Mark

/-- The mark some columns further on the line. -/
def along (m : Mark) (n : Nat) : Mark := ⟨m.index + n, m.line, m.column + n⟩

/-- The mark behind a line break. -/
def below (m : Mark) : Mark := ⟨m.index + 1, m.line + 1, 0⟩

variable (m : Mark) (n k : Nat)

@[simp] theorem along_along : (m.along n).along k = m.along (n + k) := by
  simp [along, Nat.add_assoc]

@[simp] theorem line_along : (m.along n).line = m.line := rfl

@[simp] theorem column_along : (m.along n).column = m.column + n := rfl

@[simp] theorem index_along : (m.along n).index = m.index + n := rfl

end Mark

namespace Cursor

variable {p : Char → Bool} {run r : List Char} {m : Mark} {c : Char}

theorem next_cons : (Cursor.mk (c :: r) m).next = ⟨r, afterChar m c r.head?⟩ := rfl

@[simp] theorem peek_cons : (Cursor.mk (c :: r) m).peek = c := rfl

@[simp] theorem peekAt_one : (Cursor.mk (c :: r) m).peekAt 1 = r.headD '\x00' := by
  cases r <;> rfl

theorem afterChar_of_line (h : Fault.endsLine c = false) (next : Option Char) :
    ∃ column, afterChar m c next = ⟨m.index + 1, m.line, column⟩ := by
  simp only [Fault.endsLine, Bool.or_eq_false_iff, beq_eq_false_iff_ne] at h
  have inside : ¬ (isBreak c = true ∨ (c = '\r' ∧ next ≠ some '\n')) := by simp [h]
  unfold afterChar
  rw [if_neg inside]
  split
  · exact ⟨_, rfl⟩
  · exact ⟨_, rfl⟩

theorem afterChar_of_inline (h : isInline c = true) (next : Option Char) :
    afterChar m c next = m.along 1 := by
  simp only [isInline, Fault.endsLine, Bool.and_eq_true, Bool.not_eq_true', Bool.or_eq_false_iff,
    beq_eq_false_iff_ne, bne_iff_ne] at h
  have inside : ¬ (isBreak c = true ∨ (c = '\r' ∧ next ≠ some '\n')) := by simp [h]
  unfold afterChar
  rw [if_neg inside, if_neg h.2]
  rfl

theorem next_inline (h : isInline c = true) : (Cursor.mk (c :: r) m).next = ⟨r, m.along 1⟩ := by
  rw [next_cons, afterChar_of_inline h]

theorem next_break (h : isBreak c = true) : (Cursor.mk (c :: r) m).next = ⟨r, m.below⟩ := by
  rw [next_cons, afterChar, if_pos (Or.inl h)]
  rfl

theorem skip_inline (h : ∀ c ∈ run, isInline c = true) :
    (Cursor.mk (run ++ r) m).skip run.length = ⟨r, m.along run.length⟩ := by
  induction run generalizing m with
  | nil => rfl
  | cons c run ih =>
    obtain ⟨here, rest⟩ := List.forall_mem_cons.1 h
    rw [List.length_cons, skip, List.cons_append, next_inline here, ih rest, Mark.along_along,
      Nat.add_comm]

/-- Within a line the line stays the same, but not every character takes a column. -/
theorem skip_line (h : ∀ c ∈ run, Fault.endsLine c = false) :
    ∃ column, (Cursor.mk (run ++ r) m).skip run.length =
      ⟨r, ⟨m.index + run.length, m.line, column⟩⟩ := by
  induction run generalizing m with
  | nil => exact ⟨m.column, rfl⟩
  | cons c run ih =>
    obtain ⟨here, rest⟩ := List.forall_mem_cons.1 h
    obtain ⟨column, one⟩ := afterChar_of_line here (run ++ r).head?
    obtain ⟨column, more⟩ := ih rest (m := ⟨m.index + 1, m.line, column⟩)
    refine ⟨column, ?_⟩
    rw [List.length_cons, skip, List.cons_append, next_cons, one, more, Nat.add_comm run.length,
      Nat.add_assoc]

theorem span_append (all : ∀ c ∈ run, p c = true) (avoids : Avoids p r) :
    (Cursor.mk (run ++ r) m).span p = (run, (Cursor.mk (run ++ r) m).skip run.length) := by
  unfold span
  rw [takeWhile_append all avoids]

theorem span_avoids (avoids : Avoids p r) : (Cursor.mk r m).span p = ([], ⟨r, m⟩) := by
  have none : ∀ c ∈ ([] : List Char), p c = true := nofun
  exact span_append none avoids

/-- Spaces in front of something else. -/
theorem span_spaces {n : Nat} (space : p ' ' = true) (avoids : Avoids p r) :
    (Cursor.mk (List.replicate n ' ' ++ r) m).span p =
      (List.replicate n ' ', ⟨r, m.along n⟩) := by
  have all : ∀ c ∈ List.replicate n ' ', p c = true := by
    intro c mem
    rw [List.eq_of_mem_replicate mem, space]
  have inline : ∀ c ∈ List.replicate n ' ', isInline c = true := by
    intro c mem
    rw [List.eq_of_mem_replicate mem, isInline_space]
  rw [span_append all avoids, skip_inline inline, List.length_replicate]

theorem skipWhile_spaces {n : Nat} (space : p ' ' = true) (avoids : Avoids p r) :
    (Cursor.mk (List.replicate n ' ' ++ r) m).skipWhile p = ⟨r, m.along n⟩ := by
  rw [skipWhile, span_spaces space avoids]

theorem skipWhile_avoids (avoids : Avoids p r) : (Cursor.mk r m).skipWhile p = ⟨r, m⟩ := by
  rw [skipWhile, span_avoids avoids]

theorem lineBreak?_feed : (Cursor.mk ('\n' :: r) m).lineBreak? = some ('\n', ⟨r, m.below⟩) := by
  have feed : isBreak '\n' = true := by decide
  rw [← next_break feed]
  rfl

theorem lineBreak?_avoids (avoids : Avoids Fault.endsLine r) :
    (Cursor.mk r m).lineBreak? = none := by
  cases r with
  | nil => rfl
  | cons c r =>
    have other := avoids_cons.1 avoids
    simp only [Fault.endsLine, isBreak, Bool.or_eq_false_iff, beq_eq_false_iff_ne] at other
    simp [lineBreak?, other]

theorem peek_ne {d : Char} (h : d ≠ '\x00') (avoids : Avoids (· == d) r) :
    (Cursor.mk r m).peek ≠ d := by
  cases r with
  | nil => exact Ne.symm h
  | cons c r => simpa using avoids

end Cursor
end HostPlan.Yaml
