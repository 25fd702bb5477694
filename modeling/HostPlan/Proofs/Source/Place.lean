import HostPlan.Proofs.Text.Trim
import HostPlan.Source.Bracket
/-!
Texts without comments. There the machine that finds comments and the one that finds brackets tell
the same characters apart: `Place.marks` marks every character of a text, and every program text has
the marks of the text that is left of it once its comments are gone.
-/
namespace HostPlan.Source

open Text

def Mark.char : Mark → Char
  | .code c => c
  | .opening c => c
  | .inside c => c

/-- A character that begins a comment when it follows a slash. -/
def isCommentSign (c : Char) : Bool := c == '/' || c == '*'

namespace Place

def mark : Place → Char → Mark
  | .code, c => if isQuote c then .opening c else .code c
  | .literal _, c => .inside c
  | .escape _, c => .inside c

/-- The marks of a text in which nothing is a comment. -/
def marks (p : Place) : List Char → List Mark
  | [] => []
  | c :: r => p.mark c :: (p.next c).marks r

def after (p : Place) (s : List Char) : Place := s.foldl Place.next p

@[simp] theorem after_nil (p : Place) : p.after [] = p := rfl

@[simp] theorem after_cons (p : Place) (c : Char) (r : List Char) :
    p.after (c :: r) = (p.next c).after r := rfl

theorem after_append (p : Place) (s t : List Char) : p.after (s ++ t) = (p.after s).after t := by
  simp [after, List.foldl_append]

theorem marks_append (p : Place) (s t : List Char) :
    p.marks (s ++ t) = p.marks s ++ (p.after s).marks t := by
  induction s generalizing p with
  | nil => rfl
  | cons c r ih => simp [marks, ih]

theorem next_code {c : Char} (h : isQuote c = false) : Place.code.next c = .code :=
  if_neg (Bool.eq_false_iff.1 h)

theorem mark_code {c : Char} (h : isQuote c = false) : Place.code.mark c = .code c :=
  if_neg (Bool.eq_false_iff.1 h)

theorem next_quote {c : Char} (h : isQuote c = true) : Place.code.next c = .literal c := if_pos h

theorem mark_quote {c : Char} (h : isQuote c = true) : Place.code.mark c = .opening c := if_pos h

theorem next_literal (q c : Char) : (Place.literal q).next c =
    if c = '\\' then .escape q else if c = q then .code else .literal q := rfl

theorem next_backslash (q : Char) : (Place.literal q).next '\\' = .escape q := rfl

theorem next_closing {q : Char} (hq : q ≠ '\\') : (Place.literal q).next q = .code :=
  (if_neg hq).trans (if_pos rfl)

theorem next_inside {q c : Char} (plain : c ≠ '\\') (other : c ≠ q) :
    (Place.literal q).next c = .literal q := (if_neg plain).trans (if_neg other)

theorem char_mark (p : Place) (c : Char) : (p.mark c).char = c := by
  cases p with
  | code =>
    cases h : isQuote c with
    | false => rw [mark_code h, Mark.char]
    | true => rw [mark_quote h, Mark.char]
  | literal q => rfl
  | escape q => rfl

theorem map_char_marks (p : Place) (s : List Char) : (p.marks s).map Mark.char = s := by
  induction s generalizing p with
  | nil => rfl
  | cons c r ih => simp [marks, char_mark, ih]

/-- Code without quotes stays code. -/
theorem after_code {s : List Char} (h : ∀ c ∈ s, isQuote c = false) : Place.code.after s = .code := by
  induction s with
  | nil => rfl
  | cons c r ih =>
    rw [after_cons, next_code (h c List.mem_cons_self)]
    exact ih fun d hd => h d (List.mem_cons_of_mem _ hd)

theorem marks_code {s : List Char} (h : ∀ c ∈ s, isQuote c = false) :
    Place.code.marks s = s.map .code := by
  induction s with
  | nil => rfl
  | cons c r ih =>
    have head := h c List.mem_cons_self
    rw [marks, next_code head, mark_code head, ih fun d hd => h d (List.mem_cons_of_mem _ hd)]
    rfl

end Place

theorem isQuote_of_isBlank {c : Char} (h : isBlank c = true) : isQuote c = false := by
  cases hq : isQuote c with
  | false => rfl
  | true =>
    simp only [isQuote, Bool.or_eq_true, beq_iff_eq] at hq
    rcases hq with rfl | rfl <;> cases h

theorem isQuote_of_isWord {c : Char} (h : isWord c = true) : isQuote c = false := by
  cases hq : isQuote c with
  | false => rfl
  | true =>
    simp only [isQuote, Bool.or_eq_true, beq_iff_eq] at hq
    rcases hq with rfl | rfl <;> cases h

/-- Nothing in the text is a comment when it is read from this place on. -/
def Uncommented : Place → List Char → Prop
  | _, [] => True
  | p, c :: r =>
    (p = .code → c = '/' → ∀ d, r.head? = some d → isCommentSign d = false) ∧
      Uncommented (p.next c) r

instance decidableUncommented : (p : Place) → (s : List Char) → Decidable (Uncommented p s)
  | _, [] => .isTrue trivial
  | p, c :: r =>
    have := decidableUncommented (p.next c) r
    have : Decidable (∀ d, r.head? = some d → isCommentSign d = false) :=
      decidable_of_iff (r.head?.all (!isCommentSign ·) = true) (by cases r <;> simp)
    inferInstanceAs (Decidable
      ((p = .code → c = '/' → ∀ d, r.head? = some d → isCommentSign d = false) ∧
        Uncommented (p.next c) r))

theorem Uncommented.append {p : Place} {s t : List Char} (h : Uncommented p (s ++ t)) :
    Uncommented p s ∧ Uncommented (p.after s) t := by
  induction s generalizing p with
  | nil => exact ⟨trivial, h⟩
  | cons c r ih =>
    obtain ⟨head, tail⟩ := h
    obtain ⟨left, right⟩ := ih tail
    refine ⟨⟨fun hp hc d hd => head hp hc d ?_, left⟩, right⟩
    cases r with
    | nil => cases hd
    | cons e r => simpa using hd

/-- A text of blanks in front makes no difference. -/
theorem Uncommented.of_blank {l s : List Char} (hl : Blank l) (h : Uncommented .code (l ++ s)) :
    Uncommented .code s := by
  have tail := h.append.2
  rwa [Place.after_code fun c hc => isQuote_of_isBlank (hl c hc)] at tail

theorem Uncommented.of_not_mem {p : Place} {s : List Char} (h : '/' ∉ s) : Uncommented p s := by
  induction s generalizing p with
  | nil => exact trivial
  | cons c r ih =>
    rw [List.mem_cons, not_or] at h
    exact ⟨fun _ hc => absurd hc.symm h.1, ih h.2⟩

theorem Uncommented.space {s : List Char} (h : Uncommented .code s) :
    Uncommented .code (' ' :: s) := by
  refine ⟨?_, h⟩
  intro _ hc
  cases hc

/-- Two texts without comments have none together when the second begins with no comment sign. -/
theorem Uncommented.append_of {p : Place} {s t : List Char} (hs : Uncommented p s)
    (ht : Uncommented (p.after s) t) (apart : ∀ d, t.head? = some d → isCommentSign d = false) :
    Uncommented p (s ++ t) := by
  induction s generalizing p with
  | nil => exact ht
  | cons c r ih =>
    obtain ⟨head, tail⟩ := hs
    refine ⟨fun hp hc d hd => ?_, ih tail ht⟩
    cases r with
    | nil => exact apart d hd
    | cons e r => exact head hp hc d hd

theorem Uncommented.append_space {p : Place} {s t : List Char} (hs : Uncommented p s)
    (ht : Uncommented (p.after s) (' ' :: t)) : Uncommented p (s ++ ' ' :: t) := by
  refine hs.append_of ht ?_
  intro d hd
  cases hd
  rfl

namespace Mode

/-- Where the text continues once its comments are gone. -/
def place : Mode → Place
  | .literal q => .literal q
  | .escape q => .escape q
  | _ => .code

def uncommented (m : Mode) (s : List Char) : List Char := (m.marks s).map Mark.char

end Mode

namespace Place

def mode : Place → Mode
  | .code => .code
  | .literal q => .literal q
  | .escape q => .escape q

end Place

section Stripping

variable {c : Char}

theorem Mode.step_code_quote (h : isQuote c = true) :
    Mode.code.step c = (.literal c, [.opening c]) := by
  simp [Mode.step, Mode.start, h]

theorem Mode.step_code (h : isQuote c = false) (hc : c ≠ '/') :
    Mode.code.step c = (.code, [.code c]) := by
  simp [Mode.step, Mode.start, h, hc]

theorem Mode.step_slash (h : isCommentSign c = false) :
    Mode.slash.step c = ((Mode.code.step c).1, .code '/' :: (Mode.code.step c).2) := by
  simp only [isCommentSign, Bool.or_eq_false_iff, beq_eq_false_iff_ne, ne_eq] at h
  simp [Mode.step, h.1, h.2]

/-- A step makes at most one mark certain besides the slash that was waiting: the character itself,
the slash, or the blank that is left of a comment. -/
theorem Mode.step_marks (m : Mode) (c : Char) :
    (m.step c).2 = [] ∨ ∃ k : Mark, k.char ∈ [c, '/', ' '] ∧
      ((m.step c).2 = [k] ∨ (m.step c).2 = [.code '/', k]) := by
  have start : (Mode.start c).2 = [] ∨ ∃ k : Mark, k.char = c ∧ (Mode.start c).2 = [k] := by
    unfold Mode.start
    split
    · exact .inr ⟨_, rfl, rfl⟩
    · split
      · exact .inl rfl
      · exact .inr ⟨_, rfl, rfl⟩
  have itself (k : Mark) (hk : k.char = c) (h : (m.step c).2 = [k]) :
      ∃ k : Mark, k.char ∈ [c, '/', ' '] ∧ ((m.step c).2 = [k] ∨ (m.step c).2 = [.code '/', k]) :=
    ⟨k, by simp [hk], .inl h⟩
  cases m with
  | code => exact start.imp_right fun ⟨k, hk, one⟩ => itself k hk one
  | slash =>
    rw [step]
    split
    · exact .inl rfl
    · split
      · exact .inr ⟨.code ' ', by simp [Mark.char], .inl rfl⟩
      · rcases start with none | ⟨k, hk, one⟩
        · exact .inr ⟨.code '/', by simp [Mark.char], .inl (by rw [none])⟩
        · exact .inr ⟨k, by simp [hk], .inr (by rw [one])⟩
  | literal q =>
    refine .inr (itself (.inside c) rfl ?_)
    rw [step]
    split
    · rfl
    · split <;> rfl
  | escape q => exact .inr (itself (.inside c) rfl rfl)
  | lineComment =>
    by_cases hc : c = '\n'
    · exact .inr (itself (.code c) rfl (by simp [step, hc]))
    · exact .inl (by simp [step, hc])
  | blockComment =>
    rw [step]
    split <;> exact .inl rfl
  | star =>
    rw [step]
    split
    · exact .inl rfl
    · split <;> exact .inl rfl

theorem Place.place_mode (p : Place) : p.mode.place = p := by cases p <;> rfl

/-- The two machines take the same step, unless a slash may begin a comment. -/
theorem Place.step_mode {p : Place} (h : p = .code → c ≠ '/') :
    p.mode.step c = ((p.next c).mode, [p.mark c]) := by
  cases p with
  | code =>
    cases hq : isQuote c with
    | true =>
      rw [mode, Mode.step_code_quote hq, next_quote hq, mark_quote hq]
      rfl
    | false =>
      rw [mode, Mode.step_code hq (h rfl), next_code hq, mark_code hq]
      rfl
  | literal q =>
    simp only [mode, Mode.step, next]
    split
    · rfl
    · split <;> rfl
  | escape q => rfl

/-- A text without comments from one place to another, and its marks. -/
structure Stripped (p : Place) (t : List Char) (ms : List Mark) (q : Place) : Prop where
  marks : p.marks t = ms
  clean : Uncommented p t
  after : p.after t = q

theorem Stripped.cons {p p' q : Place} {k : Mark} {t : List Char} {ms : List Mark}
    (rest : Stripped p' t ms q) (next : p.next c = p') (mark : p.mark c = k)
    (slash : p = .code → c = '/' → ∀ d, t.head? = some d → isCommentSign d = false) :
    Stripped p (c :: t) (k :: ms) q where
  marks := by rw [Place.marks, next, mark, rest.marks]
  clean := ⟨slash, next ▸ rest.clean⟩
  after := by rw [Place.after_cons, next, rest.after]

theorem Stripped.code {q : Place} {t : List Char} {ms : List Mark} (rest : Stripped .code t ms q)
    (hq : isQuote c = false) (hc : c ≠ '/') : Stripped .code (c :: t) (.code c :: ms) q :=
  rest.cons (Place.next_code hq) (Place.mark_code hq) fun _ h => absurd h hc

theorem Stripped.step {p q : Place} {t : List Char} {ms : List Mark} (hc : p = .code → c ≠ '/')
    (rest : Stripped (p.mode.step c).1.place t ms q) :
    Stripped p ((p.mode.step c).2.map Mark.char ++ t) ((p.mode.step c).2 ++ ms) q := by
  rw [Place.step_mode hc] at rest ⊢
  rw [Place.place_mode] at rest
  rw [List.map_singleton, Place.char_mark]
  exact rest.cons rfl rfl fun hp slash => absurd slash (hc hp)

/-- A slash that begins no comment is code. -/
theorem Stripped.step_slash {q : Place} {t : List Char} {ms : List Mark}
    (hs : isCommentSign c = false) (rest : Stripped (Mode.slash.step c).1.place t ms q) :
    Stripped .code ((Mode.slash.step c).2.map Mark.char ++ t) ((Mode.slash.step c).2 ++ ms) q := by
  have hc : Place.code = .code → c ≠ '/' := by
    rintro - rfl
    cases hs
  have apart (d : Char) (hd : ((Place.code.mode.step c).2.map Mark.char ++ t).head? = some d) :
      isCommentSign d = false := by
    rw [Place.step_mode hc, List.map_singleton, Place.char_mark] at hd
    cases hd
    exact hs
  rw [Mode.step_slash hs] at rest ⊢
  exact (Stripped.step hc rest).cons rfl rfl fun _ _ => apart

/-- What is left of a text without its comments has no comment, and is marked like the text. -/
theorem Mode.stripped (m : Mode) (s : List Char) :
    Stripped m.place (m.uncommented s) (m.marks s) (m.after s).place := by
  induction s generalizing m with
  | nil =>
    cases m with
    | slash => exact ⟨rfl, ⟨fun _ _ d hd => (by cases hd), trivial⟩, rfl⟩
    | _ => exact ⟨rfl, trivial, rfl⟩
  | cons c r ih =>
    have after : (m.after (c :: r)).place = ((m.step c).1.after r).place := rfl
    rw [after, Mode.uncommented, Mode.marks, List.map_append]
    have rest := ih (m.step c).1
    cases m with
    | code =>
      by_cases hc : c = '/'
      · subst hc
        exact rest
      · exact .step (p := .code) (fun _ => hc) rest
    | literal q => exact .step (p := .literal q) nofun rest
    | escape q => exact .step (p := .escape q) nofun rest
    | slash =>
      cases hs : isCommentSign c with
      | true =>
        simp only [isCommentSign, Bool.or_eq_true, beq_iff_eq] at hs
        rcases hs with rfl | rfl
        · exact rest
        · exact Stripped.code rest rfl (by decide)
      | false => exact rest.step_slash hs
    -- Inside a comment nothing is left until it ends.
    | lineComment =>
      by_cases hc : c = '\n'
      · subst hc
        exact Stripped.code rest rfl (by decide)
      · simp only [step, if_neg hc] at rest ⊢
        exact rest
    | blockComment =>
      by_cases hc : c = '*'
      · subst hc
        exact rest
      · simp only [step, if_neg hc] at rest ⊢
        exact rest
    | star =>
      by_cases hc : c = '/'
      · subst hc
        exact rest
      · by_cases hs : c = '*'
        · subst hs
          exact rest
        · simp only [step, if_neg hc, if_neg hs] at rest ⊢
          exact rest

/-- The place between two characters is code, and no comment has begun. -/
def Mode.IsPlain (m : Mode) : Prop := m = .code ∨ m = .slash

/-- The two machines are at the same place, but one may wait for what follows a slash. -/
def Mode.StandsAt (m : Mode) (p : Place) : Prop := m = p.mode ∨ m = .slash ∧ p = .code

theorem Mode.StandsAt.isPlain_iff {m : Mode} {p : Place} (h : m.StandsAt p) :
    m.IsPlain ↔ p = .code := by
  rcases h with rfl | ⟨rfl, rfl⟩
  · cases p <;> simp [IsPlain, Place.mode]
  · simp [IsPlain]

theorem Mode.StandsAt.place {m : Mode} {p : Place} (h : m.StandsAt p) : m.place = p := by
  rcases h with rfl | ⟨rfl, rfl⟩
  · cases p <;> rfl
  · rfl

/-- In a text without comments the two machines agree, also behind a slash that is code. -/
theorem Uncommented.marks_mode {p : Place} {s : List Char} (h : Uncommented p s) :
    (p.mode.marks s = p.marks s ∧ (p.mode.after s).StandsAt (p.after s)) ∧
      (p = .code → (∀ d, s.head? = some d → isCommentSign d = false) →
        Mode.slash.marks s = .code '/' :: Place.code.marks s ∧
          (Mode.slash.after s).StandsAt (Place.code.after s)) := by
  -- A slash is held back until the next character is known, so the state behind one goes along.
  induction s generalizing p with
  | nil =>
    exact ⟨⟨by cases p <;> rfl, .inl rfl⟩, fun _ _ => ⟨rfl, .inr ⟨rfl, rfl⟩⟩⟩
  | cons c r ih =>
    obtain ⟨head, tail⟩ := h
    obtain ⟨⟨marks, after⟩, behindSlash⟩ := ih tail
    have atPlace : p.mode.marks (c :: r) = p.marks (c :: r) ∧
        (p.mode.after (c :: r)).StandsAt (p.after (c :: r)) := by
      have stepped : p.mode.after (c :: r) = (p.mode.step c).1.after r := rfl
      rw [stepped, Mode.marks, Place.marks, Place.after_cons]
      by_cases slash : p = .code ∧ c = '/'
      · obtain ⟨rfl, rfl⟩ := slash
        exact behindSlash rfl (head rfl rfl)
      · rw [Place.step_mode fun hp hc => slash ⟨hp, hc⟩]
        exact ⟨congrArg (List.cons _) marks, after⟩
    refine ⟨atPlace, ?_⟩
    rintro rfl apart
    have step := Mode.step_slash (apart c rfl)
    have stepped : Mode.slash.after (c :: r) = Mode.code.after (c :: r) := by
      change (Mode.slash.step c).1.after r = (Mode.code.step c).1.after r
      rw [step]
    rw [stepped, Mode.marks, step, List.cons_append]
    exact ⟨congrArg (List.cons _) atPlace.1, atPlace.2⟩

theorem Uncommented.marks_code {s : List Char} (h : Uncommented .code s) :
    Mode.code.marks s = Place.code.marks s :=
  h.marks_mode.1.1

theorem Uncommented.uncommented_eq {s : List Char} (h : Uncommented .code s) :
    Mode.code.uncommented s = s := by
  rw [Mode.uncommented, h.marks_code, Place.map_char_marks]

theorem Uncommented.standsAt {s : List Char} (h : Uncommented .code s) :
    (Mode.code.after s).StandsAt (Place.code.after s) :=
  h.marks_mode.1.2

end Stripping

/-- A character that neither opens a literal nor has to do with a comment. -/
def Neutral (c : Char) : Prop := isQuote c = false ∧ isCommentSign c = false

instance : DecidablePred Neutral := fun c =>
  inferInstanceAs (Decidable (isQuote c = false ∧ isCommentSign c = false))

theorem Mode.step_neutral {m : Mode} {c : Char} (hc : Neutral c) (plain : m.IsPlain) :
    m.step c = (.code, m.finish ++ [.code c]) := by
  have sign := hc.2
  simp only [isCommentSign, Bool.or_eq_false_iff, beq_eq_false_iff_ne, ne_eq] at sign
  rcases plain with rfl | rfl
  · simp [step, start, finish, hc.1, sign.1]
  · simp [step, start, finish, hc.1, sign.1, sign.2]

/-- Reading starts afresh behind a neutral character that is code. -/
theorem Mode.marks_append_neutral {m : Mode} {s : List Char} {c : Char} (hc : Neutral c)
    (plain : (m.after s).IsPlain) (t : List Char) :
    m.marks (s ++ c :: t) = m.marks s ++ .code c :: Mode.code.marks t := by
  induction s generalizing m with
  | nil =>
    have here : m.IsPlain := plain
    change (m.step c).2 ++ marks (m.step c).1 t = m.finish ++ .code c :: Mode.code.marks t
    rw [step_neutral hc here, List.append_assoc]
    rfl
  | cons d r ih =>
    rw [List.cons_append, marks, marks, List.append_assoc, ih plain]

theorem Mode.after_append_neutral {m : Mode} {s : List Char} {c : Char} (hc : Neutral c)
    (plain : (m.after s).IsPlain) (t : List Char) :
    m.after (s ++ c :: t) = Mode.code.after t := by
  rw [after_append]
  change (((m.after s).step c).1).after t = _
  rw [step_neutral hc plain]

end HostPlan.Source
