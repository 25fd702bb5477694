import HostPlan.Text.Blank
import HostPlan.Text.Word
/-!
Trimming and words. Blanks at the two ends of a text do not matter to its trimmed form, a character
that is no blank keeps what lies behind it, and no word character is a blank.
-/
namespace HostPlan.Text

def Blank (s : List Char) : Prop := ∀ c ∈ s, isBlank c = true

theorem Blank.append {s t : List Char} (hs : Blank s) (ht : Blank t) : Blank (s ++ t) := by
  intro c hc
  rcases List.mem_append.1 hc with hc | hc
  · exact hs c hc
  · exact ht c hc

theorem blank_nil : Blank [] := by
  intro c hc
  cases hc

theorem blank_space : Blank [' '] := by
  intro c hc
  obtain rfl := List.mem_singleton.1 hc
  decide

theorem blank_spaces (s : List Char) : Blank (s.takeWhile (· == ' ')) := by
  intro c hc
  obtain rfl : c = ' ' := eq_of_beq (List.all_eq_true.1 List.all_takeWhile c hc)
  decide

theorem trimStart_cons_blank {c : Char} (h : isBlank c = true) (s : List Char) :
    trimStart (c :: s) = trimStart s := by
  simp [trimStart, h]

theorem trimStart_cons {c : Char} (h : isBlank c = false) (s : List Char) :
    trimStart (c :: s) = c :: s := by
  simp [trimStart, h]

theorem trimStart_append_blank {l : List Char} (h : Blank l) (s : List Char) :
    trimStart (l ++ s) = trimStart s := by
  induction l with
  | nil => rfl
  | cons c l ih =>
    have head := h c List.mem_cons_self
    rw [List.cons_append, trimStart_cons_blank head, ih fun d hd => h d (List.mem_cons_of_mem _ hd)]

theorem trimStart_append_cons {c : Char} (h : isBlank c = false) (s t : List Char) :
    trimStart (s ++ c :: t) = trimStart s ++ c :: t := by
  induction s with
  | nil => exact trimStart_cons h t
  | cons d s ih =>
    cases hd : isBlank d with
    | true => rw [List.cons_append, trimStart_cons_blank hd, trimStart_cons_blank hd, ih]
    | false => rw [List.cons_append, trimStart_cons hd, trimStart_cons hd, List.cons_append]

theorem trimEnd_cons (c : Char) (s : List Char) :
    trimEnd (c :: s) = if trimEnd s = [] ∧ isBlank c = true then [] else c :: trimEnd s := by
  rw [trimEnd]
  cases trimEnd s with
  | nil => cases isBlank c <;> rfl
  | cons d t => simp

theorem trimEnd_eq_nil {s : List Char} (h : Blank s) : trimEnd s = [] := by
  induction s with
  | nil => rfl
  | cons c s ih =>
    rw [trimEnd_cons, if_pos ⟨ih fun d hd => h d (List.mem_cons_of_mem _ hd),
      h c List.mem_cons_self⟩]

theorem trimEnd_append_blank {r : List Char} (h : Blank r) (s : List Char) :
    trimEnd (s ++ r) = trimEnd s := by
  induction s with
  | nil => exact trimEnd_eq_nil h
  | cons c s ih => rw [List.cons_append, trimEnd_cons, trimEnd_cons, ih]

theorem trimEnd_append_cons {c : Char} (h : isBlank c = false) (s t : List Char) :
    trimEnd (s ++ c :: t) = s ++ c :: trimEnd t := by
  induction s with
  | nil => simp [trimEnd_cons, h]
  | cons d s ih => simp [trimEnd_cons, ih]

theorem trimEnd_blank_append {l : List Char} (hl : Blank l) (s : List Char) :
    ∃ l', Blank l' ∧ trimEnd (l ++ s) = l' ++ trimEnd s := by
  induction l with
  | nil => exact ⟨[], blank_nil, rfl⟩
  | cons c l ih =>
    obtain ⟨head, tail⟩ := List.forall_mem_cons.1 hl
    obtain ⟨l', hl', hs⟩ := ih tail
    rw [List.cons_append, trimEnd_cons, hs]
    split
    · rename_i none
      exact ⟨[], blank_nil, (List.append_eq_nil_iff.1 none.1).2.symm⟩
    · exact ⟨c :: l', List.forall_mem_cons.2 ⟨head, hl'⟩, rfl⟩

theorem exists_trimStart (s : List Char) : ∃ l, Blank l ∧ s = l ++ trimStart s := by
  refine ⟨s.takeWhile isBlank, ?_, List.takeWhile_append_dropWhile.symm⟩
  intro c hc
  exact List.all_eq_true.1 List.all_takeWhile c hc

theorem exists_trimEnd (s : List Char) : ∃ r, Blank r ∧ s = trimEnd s ++ r := by
  induction s with
  | nil => exact ⟨[], blank_nil, rfl⟩
  | cons c s ih =>
    obtain ⟨r, hr, hs⟩ := ih
    rw [trimEnd_cons]
    split
    · rename_i h
      refine ⟨c :: s, ?_, rfl⟩
      rw [h.1, List.nil_append] at hs
      intro d hd
      rcases List.mem_cons.1 hd with rfl | hd
      · exact h.2
      · exact hr d (hs ▸ hd)
    · exact ⟨r, hr, by rw [List.cons_append, ← hs]⟩

/-- A text is its trimmed form between blanks. -/
theorem exists_trim (s : List Char) : ∃ l r, Blank l ∧ Blank r ∧ s = l ++ trim s ++ r := by
  obtain ⟨l, hl, hs⟩ := exists_trimStart s
  obtain ⟨r, hr, ht⟩ := exists_trimEnd (trimStart s)
  exact ⟨l, r, hl, hr, by rw [trim, List.append_assoc, ← ht, ← hs]⟩

theorem trimStart_cons_of_trimStart {s t : List Char} {c : Char} (h : trimStart s = c :: t) :
    isBlank c = false := by
  have head := List.head_dropWhile_not isBlank (l := s) (by rw [trimStart] at h; simp [h])
  simp only [trimStart] at h
  simpa [h] using head

theorem trim_append_blank {l r : List Char} (hl : Blank l) (hr : Blank r) (s : List Char) :
    trim (l ++ s ++ r) = trim s := by
  rw [trim, trim, List.append_assoc, trimStart_append_blank hl]
  cases h : trimStart s with
  | nil =>
    obtain ⟨b, hb, hs⟩ := exists_trimStart s
    rw [h, List.append_nil] at hs
    have all : Blank (s ++ r) := (hs ▸ hb : Blank s).append hr
    obtain ⟨b', hb', hsr⟩ := exists_trimStart (s ++ r)
    rw [trimEnd_eq_nil fun c hc => all c (hsr ▸ List.mem_append_right b' hc)]
    rfl
  | cons c t =>
    have solid := trimStart_cons_of_trimStart h
    obtain ⟨b, hb, hs⟩ := exists_trimStart s
    rw [h] at hs
    rw [hs, List.append_assoc, trimStart_append_blank hb, List.cons_append, trimStart_cons solid,
      ← List.cons_append, trimEnd_append_blank hr]

theorem trim_trim (s : List Char) : trim (trim s) = trim s := by
  obtain ⟨l, r, hl, hr, split⟩ := exists_trim s
  have same := congrArg trim split
  rw [trim_append_blank hl hr] at same
  exact same.symm

theorem trim_append_cons {c : Char} (h : isBlank c = false) (s t : List Char) :
    trim (s ++ c :: t) = trimStart s ++ c :: trimEnd t := by
  rw [trim, trimStart_append_cons h, trimEnd_append_cons h]

theorem isBlank_of_isWord {c : Char} (h : isWord c = true) : isBlank c = false := by
  have table : ∀ r ∈ blanks, ∀ n ∈ List.range' r.1 (r.2 + 1 - r.1),
      isWord (Char.ofNat n) = false := by decide +kernel
  cases hb : isBlank c with
  | false => rfl
  | true =>
    obtain ⟨r, hr, low, high⟩ := (inRanges_iff blanks c.toNat).1 hb
    have none := table r hr c.toNat (List.mem_range'_1.2 ⟨low, by omega⟩)
    rw [Char.ofNat_toNat, h] at none
    cases none

def Word (s : List Char) : Prop := ∀ c ∈ s, isWord c = true

instance : DecidablePred Word := List.decidableBAll fun c => isWord c = true

theorem leadingWord_append_cons {w : List Char} (hw : Word w) {c : Char} (hc : isWord c = false)
    (s : List Char) : leadingWord (w ++ c :: s) = w := by
  rw [leadingWord, List.takeWhile_append_of_pos hw, List.takeWhile_cons, hc]
  simp

theorem afterWord_append_cons {w : List Char} (hw : Word w) {c : Char} (hc : isWord c = false)
    (s : List Char) : afterWord (w ++ c :: s) = c :: s := by
  rw [afterWord, List.dropWhile_append_of_pos hw, List.dropWhile_cons, hc]
  simp

end HostPlan.Text
