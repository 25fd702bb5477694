import HostPlan.Data.Yaml.Printer
import HostPlan.Data.Yaml.Unquoted
import HostPlan.Proofs.Data.Yaml.Cursor
import Mathlib.Data.Bool.AllAny
import Mathlib.Tactic.IntervalCases
/-!
Scalars without quotes are read as they were written, up to what stands behind them: the colon of a
key, a remark, or the end of the line.
-/
namespace HostPlan.Yaml

/-- Characters that stand in a scalar as they are. -/
def isVisible (c : Char) : Bool := isPrintable c && !isBreak c

section Characters

variable {c : Char}

theorem isInline_of_isVisible (h : isVisible c = true) : isInline c = true := by
  simp only [isVisible, isPrintable, isInline, Fault.endsLine, Bool.and_eq_true, Bool.or_eq_true,
    Bool.not_eq_true', Bool.or_eq_false_iff, beq_eq_false_iff_ne, bne_iff_ne, decide_eq_true_eq]
    at h ⊢
  obtain ⟨printable, noBreak⟩ := h
  refine ⟨⟨⟨noBreak, ?_⟩, ?_⟩, ?_⟩ <;>
  · rintro rfl
    revert printable
    decide

theorem isSpaceOrEnd_of_isVisible (h : isVisible c = true) : isSpaceOrEnd c = (c == ' ') := by
  have line := endsLine_of_isInline (isInline_of_isVisible h)
  have tab : c ≠ '\t' := by
    rintro rfl
    revert h
    decide
  simp [isSpaceOrEnd, line, tab]

end Characters

/-- Words with spaces between them that no comment and no colon breaks up. -/
structure Words (s : List Char) : Prop where
  filled : s ≠ []
  visible : ∀ c ∈ s, isVisible c = true
  front : s.head? ≠ some ' '
  back : s.getLast? ≠ some ' '
  holds : holdsIndicator ' ' s = false

/-- A text that is read without quotes as a scalar of its own. -/
structure Bare (s : List Char) : Prop extends Words s where
  indicator : startsIndicator s = false

section Words

variable {s t w tail : List Char} {b c : Char}

theorem holdsIndicator_behind (h : holdsIndicator b (s ++ c :: t) = false) :
    holdsIndicator c t = false := by
  induction s generalizing b with
  | nil => exact (Bool.or_eq_false_iff.1 h).2
  | cons d s ih => exact ih (Bool.or_eq_false_iff.1 h).2

/-- A word is read up to the gap behind it. -/
theorem plainRun_word (visible : ∀ c ∈ w, isVisible c = true) (solid : ' ' ∉ w)
    (gap : isGap t.head? = true) (holds : holdsIndicator b (w ++ t) = false)
    (ends : plainRun false (t ++ tail) = []) : plainRun false (w ++ (t ++ tail)) = w := by
  induction w generalizing b with
  | nil => exact ends
  | cons c w ih =>
    obtain ⟨here, rest⟩ := List.forall_mem_cons.1 visible
    obtain ⟨notSpace, solid⟩ := not_or.1 (mt List.mem_cons.2 solid)
    rw [List.cons_append, holdsIndicator, Bool.or_eq_false_iff, Bool.or_eq_false_iff] at holds
    obtain ⟨⟨colon, -⟩, onward⟩ := holds
    have inside : isSpaceOrEnd c = false := by
      rw [isSpaceOrEnd_of_isVisible here]
      simpa using Ne.symm notSpace
    rw [List.cons_append, plainRun, ih rest solid onward]
    by_cases sign : c = ':'
    · -- Behind a colon the word goes on.
      cases w with
      | nil => simp [sign, gap] at colon
      | cons d w =>
        have next : isSpaceOrEnd d = false := by
          rw [isSpaceOrEnd_of_isVisible (rest d List.mem_cons_self)]
          simpa using fun same : d = ' ' => solid (same ▸ List.mem_cons_self)
        rw [if_pos (Or.inr ⟨sign, by simp [next]⟩)]
    · by_cases mark : c = '?'
      · rw [if_pos (Or.inl mark)]
      · rw [if_neg (by simp [sign, mark]), if_neg (by simp [sign, inside])]

theorem Words.exists_cons (words : Words s) :
    ∃ c r, s = c :: r ∧ isVisible c = true ∧ c ≠ ' ' ∧ c ≠ '#' := by
  obtain ⟨c, r, rfl⟩ := List.exists_cons_of_ne_nil words.filled
  refine ⟨c, r, rfl, words.visible c List.mem_cons_self, ?_, ?_⟩
  · rintro rfl
    exact words.front rfl
  · rintro rfl
    exact nomatch words.holds

/-- A text is a run of spaces and what stands behind it. -/
theorem exists_spaces (s : List Char) :
    ∃ n t, s = List.replicate n ' ' ++ t ∧ t.head? ≠ some ' ' := by
  induction s with
  | nil => exact ⟨0, [], rfl, nofun⟩
  | cons c s ih =>
    by_cases space : c = ' '
    · obtain ⟨n, t, rfl, front⟩ := ih
      exact ⟨n + 1, t, by rw [space]; rfl, front⟩
    · exact ⟨0, c :: s, rfl, by simpa using space⟩

theorem exists_word (s : List Char) :
    ∃ w t, s = w ++ t ∧ ' ' ∉ w ∧ (t = [] ∨ ∃ r, t = ' ' :: r) := by
  induction s with
  | nil => exact ⟨[], [], rfl, nofun, .inl rfl⟩
  | cons c s ih =>
    by_cases space : c = ' '
    · exact ⟨[], c :: s, rfl, nofun, .inr ⟨s, by rw [space]⟩⟩
    · obtain ⟨w, t, rfl, solid, next⟩ := ih
      exact ⟨c :: w, t, rfl, by simp [Ne.symm space, solid], next⟩

/-- A text of words is one word, or a word and more behind some spaces. -/
inductive Split : List Char → Prop where
  | last {w : List Char} (solid : ' ' ∉ w) : Split w
  | more {w s : List Char} (n : Nat) (filled : w ≠ []) (solid : ' ' ∉ w) (words : Words s) :
    Split (w ++ (List.replicate (n + 1) ' ' ++ s))

theorem Words.split (words : Words s) : Split s := by
  obtain ⟨w, t, rfl, solid, next⟩ := exists_word s
  rcases next with rfl | ⟨r, rfl⟩
  · rw [List.append_nil]
    exact .last solid
  · obtain ⟨n, s', rfl, front⟩ := exists_spaces r
    have filled : w ≠ [] := by
      rintro rfl
      exact words.front rfl
    have spaces : (' ' :: (List.replicate n ' ' ++ s')) = List.replicate (n + 1) ' ' ++ s' := rfl
    have some : s' ≠ [] := by
      rintro rfl
      refine words.back ?_
      rw [spaces, List.append_nil, List.replicate_succ', ← List.append_assoc,
        List.getLast?_concat]
    rw [spaces]
    refine .more n filled solid ⟨some, ?visible, front, ?back, ?holds⟩
    case visible =>
      intro c mem
      exact words.visible c (by simp [mem])
    case back =>
      have back := words.back
      have last : s'.getLast?.isSome = true := List.getLast?_isSome.2 some
      rwa [spaces, ← List.append_assoc, List.getLast?_append, Option.or_of_isSome last] at back
    case holds =>
      have parts : w ++ ' ' :: (List.replicate n ' ' ++ s') =
          (w ++ List.replicate n ' ') ++ ' ' :: s' := by
        rw [List.append_assoc, ← List.singleton_append, ← List.append_assoc [' '],
          List.singleton_append, ← List.replicate_succ, List.replicate_succ', List.append_assoc,
          List.singleton_append]
      exact holdsIndicator_behind (parts ▸ words.holds)

end Words

section Scan

variable {s tail : List Char} {m : Mark} {least fuel : Nat}

/-- A scalar is over at this place. -/
def EndsPlain (least : Nat) (gap : List Char) (c : Cursor) : Prop :=
  gap = [] ∨ c.peek = '#' ∨ c.mark.column < least ∨ plainRun false c.rest = []

theorem skip_visible (visible : ∀ c ∈ s, isVisible c = true) (r : List Char) :
    (Cursor.mk (s ++ r) m).skip s.length = ⟨r, m.along s.length⟩ :=
  Cursor.skip_inline fun c mem => isInline_of_isVisible (visible c mem)

theorem plainRun_words (words : Words s) (ends : plainRun false tail = []) :
    plainRun false (s ++ tail) ≠ [] := by
  have filled := words.filled
  have split := words.split
  cases split with
  | last solid =>
    have run := plainRun_word (t := []) words.visible solid rfl (by simpa using words.holds) ends
    rw [List.nil_append] at run
    rwa [run]
  | @more w s n some solid rest =>
    have visible : ∀ c ∈ w, isVisible c = true := fun c mem => words.visible c (by simp [mem])
    rw [List.append_assoc, plainRun_word visible solid rfl words.holds rfl]
    exact some

/-- Spaces between two words belong to the text. -/
theorem plainGap_spaces (words : Words s) (n : Nat) :
    plainGap ⟨List.replicate (n + 1) ' ' ++ s ++ tail, m⟩ =
      (List.replicate (n + 1) ' ', false, ⟨s ++ tail, m.along (n + 1)⟩) := by
  obtain ⟨c, r, rfl, visible, space, -⟩ := words.exists_cons
  have spaces : Avoids (· == ' ') (c :: r ++ tail) := by simpa using space
  have line : Avoids Fault.endsLine (c :: r ++ tail) := by
    simpa using endsLine_of_isInline (isInline_of_isVisible visible)
  unfold plainGap
  rw [List.append_assoc, Cursor.span_spaces rfl spaces]
  simp only [Cursor.lineBreak?_avoids line]

theorem scanPlain_words (words : Words s) (enough : s.length < fuel) (deep : least ≤ m.column + 1)
    (ends : plainRun false tail = [])
    (past : EndsPlain least (plainGap ⟨tail, m.along s.length⟩).1
      (plainGap ⟨tail, m.along s.length⟩).2.2) :
    scanPlain false least fuel ⟨s ++ tail, m⟩ =
      (s, (plainGap ⟨tail, m.along s.length⟩).2) := by
  induction fuel generalizing s m with
  | zero => exact absurd enough (Nat.not_lt_zero _)
  | succ fuel ih =>
    have split := words.split
    cases split with
    | last solid =>
      have run : plainRun false (s ++ tail) = s :=
        plainRun_word (t := []) words.visible solid rfl (by simpa using words.holds) ends
      unfold scanPlain
      simp only [run, skip_visible words.visible]
      rw [if_pos]
      simpa [EndsPlain] using past
    | @more w s n filled solid rest =>
      have visible : ∀ c ∈ w, isVisible c = true := fun c mem => words.visible c (by simp [mem])
      have run : plainRun false (w ++ (List.replicate (n + 1) ' ' ++ s ++ tail)) = w :=
        plainRun_word visible solid rfl words.holds rfl
      have parts : w ++ (List.replicate (n + 1) ' ' ++ s) ++ tail =
        w ++ (List.replicate (n + 1) ' ' ++ s ++ tail) := by simp
      have length : (w ++ (List.replicate (n + 1) ' ' ++ s)).length =
          w.length + (n + 1) + s.length := by
        simp only [List.length_append, List.length_replicate, Nat.add_assoc]
      rw [length] at past enough
      have onward := ih rest (m := m.along (w.length + (n + 1))) (by omega)
        (by rw [Mark.column_along]; omega) (by rwa [Mark.along_along])
      have continues : ¬ (List.replicate (n + 1) ' ' = [] ∨
          (Cursor.mk (s ++ tail) (m.along (w.length + (n + 1)))).peek = '#' ∨
          m.column + (w.length + (n + 1)) < least ∨ plainRun false (s ++ tail) = []) := by
        obtain ⟨c, r, rfl, -, -, hash⟩ := rest.exists_cons
        have column : ¬ m.column + (w.length + (n + 1)) < least := by omega
        simpa [column, hash] using plainRun_words rest ends
      unfold scanPlain
      simp only [parts, run, skip_visible visible, plainGap_spaces rest, Mark.along_along]
      rw [if_neg (by simpa using continues), onward, length, Mark.along_along]
      simp

end Scan

/-- The text begins with neither a blank nor a line break nor the number sign of a remark. -/
def Fresh (s : List Char) : Prop := Avoids (fun c => isSpaceOrEnd c || c == '#') s

section Fresh

variable {s r : List Char} {c : Char}

@[simp] theorem fresh_nil : Fresh [] := avoids_nil

theorem fresh_cons : Fresh (c :: r) ↔ isSpaceOrEnd c = false ∧ c ≠ '#' := by
  simp [Fresh]

theorem fresh_visible (visible : isVisible c = true) (space : c ≠ ' ') (hash : c ≠ '#') :
    Fresh (c :: r) := by
  rw [fresh_cons, isSpaceOrEnd_of_isVisible visible]
  exact ⟨by simpa using space, hash⟩

theorem Fresh.space (fresh : Fresh s) : Avoids (· == ' ') s :=
  fresh.mono fun c h => by simp [isSpaceOrEnd, eq_of_beq h]

theorem Fresh.line (fresh : Fresh s) : Avoids Fault.endsLine s :=
  fresh.mono fun c h => by simp [isSpaceOrEnd, h]

theorem Fresh.hash (fresh : Fresh s) : Avoids (· == '#') s :=
  fresh.mono fun c h => by simp [eq_of_beq h]

end Fresh

/-- What stands behind the indentation of a line that goes on with the document, or else nothing:
no blank, no comment and no line that ends a document. -/
structure Opens (s : List Char) : Prop where
  fresh : Fresh s
  dashes : "---".toList.isPrefixOf s = false
  dots : "...".toList.isPrefixOf s = false

theorem opens_nil : Opens [] := ⟨fresh_nil, rfl, rfl⟩

section Endings

variable {s r body : List Char} {m : Mark} {n least fuel : Nat}

theorem not_atSeparator (opens : Opens body) :
    (Cursor.mk (List.replicate n ' ' ++ body) m).atSeparator = false := by
  cases n with
  | zero =>
    have dashes : (Cursor.mk body m).startsWith "---" = false := opens.dashes
    have dots : (Cursor.mk body m).startsWith "..." = false := opens.dots
    simp [Cursor.atSeparator, dashes, dots]
  | succ n => rfl

/-- The end of a line, and the indentation of the next one. -/
theorem plainGap_line (opens : Opens body) :
    plainGap ⟨'\n' :: (List.replicate n ' ' ++ body), m⟩ =
      ([' '], true, ⟨body, m.below.along n⟩) := by
  have spaces : Avoids (· == ' ') ('\n' :: (List.replicate n ' ' ++ body)) := by simp
  unfold plainGap
  rw [Cursor.span_avoids spaces]
  simp only [Cursor.lineBreak?_feed, not_atSeparator opens]
  rw [skipLines, Cursor.skipWhile_spaces rfl opens.fresh.space]
  simp only [Cursor.lineBreak?_avoids opens.fresh.line]
  rfl

/-- A scalar at the end of its line, with the next line behind it. -/
theorem scanPlain_line (words : Words s) (enough : s.length < fuel) (deep : least ≤ m.column + 1)
    (opens : Opens body) (past : n < least ∨ body = []) :
    scanPlain false least fuel ⟨s ++ '\n' :: (List.replicate n ' ' ++ body), m⟩ =
      (s, true, ⟨body, (m.along s.length).below.along n⟩) := by
  have gap := plainGap_line opens (n := n) (m := m.along s.length)
  rw [scanPlain_words words enough deep rfl, gap]
  rw [gap]
  rcases past with out | rfl
  · exact .inr (.inr (.inl (by simpa [Mark.below] using out)))
  · exact .inr (.inr (.inr rfl))

theorem plainGap_remark (n : Nat) : plainGap ⟨List.replicate n ' ' ++ '#' :: r, m⟩ =
    (List.replicate n ' ', false, ⟨'#' :: r, m.along n⟩) := by
  have spaces : Avoids (· == ' ') ('#' :: r) := by simp
  have line : Avoids Fault.endsLine ('#' :: r) := by simp [Fault.endsLine, isBreak]
  unfold plainGap
  rw [Cursor.span_spaces rfl spaces]
  simp only [Cursor.lineBreak?_avoids line]

/-- A scalar with a remark behind it. -/
theorem scanPlain_remark (words : Words s) (enough : s.length < fuel)
    (deep : least ≤ m.column + 1) (n : Nat) :
    scanPlain false least fuel ⟨s ++ (List.replicate (n + 1) ' ' ++ '#' :: r), m⟩ =
      (s, false, ⟨'#' :: r, m.along (s.length + (n + 1))⟩) := by
  rw [scanPlain_words words enough deep rfl, plainGap_remark, Mark.along_along]
  rw [plainGap_remark]
  exact .inr (.inl rfl)

/-- A scalar with the colon of a key behind it. -/
theorem scanPlain_colon (words : Words s) (enough : s.length < fuel) (deep : least ≤ m.column + 1)
    (gap : isSpaceOrEnd (r.headD '\x00') = true) :
    scanPlain false least fuel ⟨s ++ ':' :: r, m⟩ = (s, false, ⟨':' :: r, m.along s.length⟩) := by
  have spaces : Avoids (· == ' ') (':' :: r) := by simp
  have line : Avoids Fault.endsLine (':' :: r) := by simp [Fault.endsLine, isBreak]
  have none : plainGap ⟨':' :: r, m.along s.length⟩ =
      ([], false, ⟨':' :: r, m.along s.length⟩) := by
    unfold plainGap
    rw [Cursor.span_avoids spaces]
    simp only [Cursor.lineBreak?_avoids line]
  have ends : plainRun false (':' :: r) = [] := by
    rw [plainRun, gap, if_neg (by decide), if_pos (.inl rfl)]
  rw [scanPlain_words words enough deep ends, none]
  rw [none]
  exact .inl rfl

end Endings

section Bare

variable {s : List Char}

/-- A text that is written without quotes can be read without them. -/
theorem bare_of_isPlain (h : isPlain s = true) : Bare s := by
  simp only [isPlain, Bool.and_eq_true, Bool.not_eq_true', beq_iff_eq] at h
  obtain ⟨⟨⟨⟨⟨⟨text, breaks⟩, special⟩, front⟩, back⟩, indicator⟩, holds⟩ := h
  have filled : s ≠ [] := by
    rintro rfl
    revert text
    decide
  constructor
  case indicator => exact indicator
  constructor
  case filled => exact filled
  case visible =>
    intro c mem
    have noBreak : isBreak c = false := by simpa using List.any_eq_false.1 breaks c mem
    have plain : isSpecial c = false := by simpa using List.any_eq_false.1 special c mem
    have other : (c == '\n' || c == '\x85') = false := by
      simp only [isBreak, Bool.or_eq_false_iff] at noBreak
      simp [noBreak]
    rw [isSpecial, other, Bool.false_or, Bool.not_eq_false'] at plain
    rw [isVisible, plain, noBreak]
    rfl
  case front =>
    intro space
    rw [space] at front
    cases front
  case back =>
    intro space
    rw [space] at back
    cases back
  case holds =>
    obtain ⟨c, r, rfl⟩ := List.exists_cons_of_ne_nil filled
    simp only [startsIndicator, Bool.or_eq_false_iff, Bool.and_eq_false_imp] at indicator
    obtain ⟨-, first, sign⟩ := indicator
    have hash : c ≠ '#' := by
      rintro rfl
      cases first
    have colon : (c == ':' && isGap r.head?) = false := by
      cases same : c == ':' with
      | false => rfl
      | true => exact sign (by simp [same])
    have onward : holdsIndicator c r = false := by simpa using holds
    simp [holdsIndicator, colon, onward, hash]

theorem holdsIndicator_of_none (colon : ':' ∉ s) (hash : '#' ∉ s) (b : Char) :
    holdsIndicator b s = false := by
  induction s generalizing b with
  | nil => rfl
  | cons c s ih =>
    obtain ⟨notColon, colon⟩ := not_or.1 (mt List.mem_cons.2 colon)
    obtain ⟨notHash, hash⟩ := not_or.1 (mt List.mem_cons.2 hash)
    simp [holdsIndicator, Ne.symm notColon, Ne.symm notHash, ih colon hash]

theorem isVisible_of_ascii {c : Char} (low : 0x20 ≤ c.toNat) (high : c.toNat ≤ 0x7E) :
    isVisible c = true := by
  have noBreak : isBreak c = false := by
    simp only [isBreak, Bool.or_eq_false_iff, beq_eq_false_iff_ne]
    refine ⟨⟨⟨?_, ?_⟩, ?_⟩, ?_⟩ <;>
    · rintro rfl
      revert low high
      decide
  simp [isVisible, isPrintable, low, high, noBreak]

/-- One word of letters, digits and other signs of ASCII that mean nothing. -/
theorem words_of_ascii (filled : s ≠ [])
    (ascii : ∀ c ∈ s, 0x20 < c.toNat ∧ c.toNat ≤ 0x7E ∧ c ≠ ':' ∧ c ≠ '#') : Words s where
  filled := filled
  visible := fun c mem => isVisible_of_ascii (Nat.le_of_lt (ascii c mem).1) (ascii c mem).2.1
  front := fun head => absurd (ascii ' ' (List.mem_of_mem_head? head)).1 (by decide)
  back := fun last => absurd (ascii ' ' (List.mem_of_getLast? last)).1 (by decide)
  holds := holdsIndicator_of_none (fun mem => (ascii ':' mem).2.2.1 rfl)
    (fun mem => (ascii '#' mem).2.2.2 rfl) ' '

theorem bare_flag (column : Nat) (b : Bool) : Bare (printScalar column (.flag b)) := by
  cases b with
  | false => exact ⟨words_of_ascii (List.cons_ne_nil _ _) (by simp [printScalar]), rfl⟩
  | true => exact ⟨words_of_ascii (List.cons_ne_nil _ _) (by simp [printScalar]), rfl⟩

theorem mem_digits {c : Char} (h : c.isDigit = true) : c ∈ "0123456789".toList := by
  obtain ⟨low, high⟩ : 48 ≤ c.toNat ∧ c.toNat ≤ 57 := Char.isDigit_iff_toNat.1 h
  rw [← Char.ofNat_toNat c]
  generalize c.toNat = n at low high
  interval_cases n <;> decide

theorem ascii_of_isDigit {c : Char} (h : c.isDigit = true) :
    0x20 < c.toNat ∧ c.toNat ≤ 0x7E ∧ c ≠ ':' ∧ c ≠ '#' := by
  have all : ∀ c ∈ "0123456789".toList, 0x20 < c.toNat ∧ c.toNat ≤ 0x7E ∧ c ≠ ':' ∧ c ≠ '#' :=
    List.all_iff_forall_prop.1 rfl
  exact all c (mem_digits h)

theorem startsIndicator_digit {c : Char} (h : c.isDigit = true) (s : List Char) :
    startsIndicator (c :: s) = false ∧ startsIndicator ('-' :: c :: s) = false := by
  have digit := mem_digits h
  simp only [String.reduceToList, List.mem_cons, List.not_mem_nil, or_false] at digit
  rcases digit with rfl | rfl | rfl | rfl | rfl | rfl | rfl | rfl | rfl | rfl <;> exact ⟨rfl, rfl⟩

theorem bare_decimalInt (i : Int) : Bare (Text.decimalInt i) := by
  have digits (n : Nat) : ∀ c ∈ Text.decimal n, c.isDigit = true :=
    fun c => Nat.isDigit_of_mem_toDigits (by decide) (by decide)
  have ascii (n : Nat) : ∀ c ∈ Text.decimal n,
      0x20 < c.toNat ∧ c.toNat ≤ 0x7E ∧ c ≠ ':' ∧ c ≠ '#' :=
    fun c mem => ascii_of_isDigit (digits n c mem)
  have first (n : Nat) : startsIndicator (Text.decimal n) = false ∧
      startsIndicator ('-' :: Text.decimal n) = false := by
    obtain ⟨c, s, shape⟩ := List.exists_cons_of_ne_nil (Nat.toDigits_ne_nil (n := n) (b := 10))
    have digit := digits n c (by rw [Text.decimal, shape]; exact List.mem_cons_self)
    rw [Text.decimal, shape]
    exact startsIndicator_digit digit s
  cases i with
  | ofNat n => exact ⟨words_of_ascii Nat.toDigits_ne_nil (ascii n), (first n).1⟩
  | negSucc n =>
    refine ⟨words_of_ascii (List.cons_ne_nil _ _) ?_, (first (n + 1)).2⟩
    exact List.forall_mem_cons.2 ⟨by decide, ascii (n + 1)⟩

end Bare

end HostPlan.Yaml
