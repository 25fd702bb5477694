import HostPlan.Data.Yaml.Lexer
import HostPlan.Proofs.Data.Yaml.Quoted
/-!
How a scalar is spelled, and which token is read from it. The text of the token is the text that was
written, unless that one was written in single quotes and is folded.
-/
namespace HostPlan.Yaml

section Spelling

variable {quote : Char} {flat : Bool} {text s r : List Char} {t : Token} {m : Mark} {column : Nat}

/-- What stands behind an opening quote is read as a text; a flat one stays on its line. -/
def IsQuoted (quote : Char) (flat : Bool) (text s : List Char) : Prop :=
  ∀ start r m fuel, r.head? ≠ some '\'' → text.length ≤ fuel →
    ∃ m' : Mark, m.line ≤ m'.line ∧ (flat = true → m' = m.along text.length) ∧
      scanQuoted quote start fuel ⟨text ++ r, m⟩ = .ok (s, ⟨r, m'⟩)

/-- A text spells a scalar. -/
inductive Spelling (flat : Bool) : List Char → Token → Prop where
  | plain {s : List Char} (bare : Bare s) : Spelling flat s (.scalar true s)
  | quoted {quote : Char} {text s : List Char} (sign : quote = '"' ∨ quote = '\'')
    (read : IsQuoted quote flat text s) : Spelling flat (quote :: text) (.scalar false s)

theorem length_le_flatMap_escapeChar (s : List Char) :
    s.length ≤ (s.flatMap escapeChar).length := by
  induction s with
  | nil => exact Nat.le_refl _
  | cons c s ih =>
    have one := length_pos_of_escape (escape_escapeChar c)
    rw [List.flatMap_cons, List.length_append, List.length_cons]
    omega

theorem isQuoted_double (flat : Bool) (s : List Char) :
    IsQuoted '"' flat (s.flatMap escapeChar ++ ['"']) s := by
  intro start r m fuel closed enough
  have length := length_le_flatMap_escapeChar s
  rw [List.length_append, List.length_singleton] at enough
  refine ⟨m.along ((s.flatMap escapeChar).length + 1), Nat.le_refl _, fun _ => ?_, ?_⟩
  · rw [List.length_append, List.length_singleton]
  · rw [List.append_assoc]
    exact scanQuoted_double (by omega)

theorem length_lt_singleQuotedRest (column : Nat) (s : List Char) :
    s.length < (singleQuotedRest column s).length := by
  induction s with
  | nil => exact Nat.one_pos
  | cons c s ih =>
    rw [singleQuotedRest_cons]
    split
    · simp only [List.length_cons]
      omega
    · split
      · simp only [List.length_cons, List.length_append]
        omega
      · simpa using ih

theorem singleQuotedRest_of_flat (quote : '\'' ∉ s) (flat : s.any isBreak = false) :
    singleQuotedRest column s = s ++ ['\''] := by
  induction s with
  | nil => rfl
  | cons c s ih =>
    obtain ⟨other, quote⟩ := not_or.1 (mt List.mem_cons.2 quote)
    obtain ⟨here, flat⟩ := Bool.or_eq_false_iff.1 flat
    rw [singleQuotedRest_cons, if_neg (Ne.symm other), if_neg (by simp [here]), ih quote flat,
      List.cons_append]

theorem isQuoted_single (column : Nat) (single : Single s)
    (line : flat = true → s.any isBreak = false) :
    IsQuoted '\'' flat (singleQuotedRest (column + 1) s) (refold true s) := by
  intro start r m fuel closed enough
  have length := length_lt_singleQuotedRest (column + 1) s
  obtain ⟨m', later, short, read⟩ := scanQuoted_single start column (m := m) single closed
    (Nat.lt_of_lt_of_le length enough)
  refine ⟨m', later, fun isFlat => ?_, read⟩
  have flat := line isFlat
  rw [short flat, singleQuotedRest_of_flat single.quote flat, List.length_append,
    List.length_singleton]

end Spelling

/-- The text has to be written in double quotes. -/
def isDoubled (s : List Char) : Bool :=
  s.contains '\'' || s.contains '\n' || s.any isSpecial || hasSpaceAtBreak s

/-- The text that is read where a text was written. -/
def reread (s : List Char) : List Char :=
  if isPlain s || isDoubled s then s else refold true s

def textToken (s : List Char) : Token := .scalar (isPlain s) (reread s)

section Text

variable {flat : Bool} {s : List Char}

theorem single_of_not_doubled (h : isDoubled s = false) : Single s := by
  simp only [isDoubled, Bool.or_eq_false_iff] at h
  obtain ⟨⟨⟨quote, feed⟩, special⟩, spaces⟩ := h
  refine ⟨fun c mem => ?_, by simpa using quote, spaces⟩
  have plain : isSpecial c = false := by simpa using List.any_eq_false.1 special c mem
  have noFeed : c ≠ '\n' := by
    rintro rfl
    simp [mem] at feed
  cases broken : isBreak c with
  | true => exact .inr (by simp [isRawBreak, broken, noFeed])
  | false =>
    have next : c ≠ '\x85' := by
      rintro rfl
      cases broken
    have printable : isPrintable c = true := by simpa [isSpecial, noFeed, next] using plain
    exact .inl (by simp [isVisible, printable, broken])

/-- Whatever a text holds, it is read from what was written. -/
theorem spelling_printText (column : Nat) (line : flat = true → s.any isBreak = false) :
    Spelling flat (printText (column + 1) s) (textToken s) := by
  unfold printText textToken reread
  cases plain : isPlain s with
  | true => exact .plain (bare_of_isPlain plain)
  | false =>
    rw [if_neg Bool.false_ne_true, Bool.false_or]
    cases doubled : isDoubled s with
    | true =>
      rw [isDoubled] at doubled
      rw [if_pos doubled]
      exact .quoted (.inl rfl) (isQuoted_double flat s)
    | false =>
      have single := single_of_not_doubled doubled
      rw [isDoubled] at doubled
      rw [if_neg (by simp only [doubled, Bool.false_eq_true, not_false_eq_true])]
      exact .quoted (.inr rfl) (isQuoted_single column single line)

theorem length_flatMap_escapeChar_le (s : List Char) :
    (s.flatMap escapeChar).length ≤ 6 * s.length := by
  induction s with
  | nil => exact Nat.le_refl _
  | cons c s ih =>
    have one := (escape_escapeChar c).length_le
    rw [List.flatMap_cons, List.length_append, List.length_cons]
    omega

/-- What is written as a simple key is short enough to be read as one. -/
theorem length_printText_le (column : Nat) (simple : isSimpleKey s = true) :
    (printText column s).length ≤ Lexer.maxKey := by
  simp only [isSimpleKey, Bool.and_eq_true, decide_eq_true_eq, Bool.not_eq_true'] at simple
  obtain ⟨short, flat⟩ := simple
  have escapes := length_flatMap_escapeChar_le s
  simp only [maxSimpleKey] at short
  simp only [Lexer.maxKey]
  unfold printText
  split
  · omega
  · split
    · simp only [doubleQuoted, List.length_cons, List.length_append, List.length_nil]
      omega
    · rename_i notDoubled
      have single : Single s := single_of_not_doubled (by simpa [isDoubled] using notDoubled)
      rw [singleQuoted, singleQuotedRest_of_flat single.quote flat]
      simp only [List.length_cons, List.length_append, List.length_nil]
      omega

end Text

/-- The token of a scalar; where nothing is written, there is none. -/
def scalarTokens : Scalar → List Token
  | .text s => [textToken s.toList]
  | .null => []
  | v => [.scalar true (printScalar 0 v)]

theorem spelling_printScalar (column : Nat) (v : Scalar) :
    v = .null ∨ ∃ t, scalarTokens v = [t] ∧ Spelling false (printScalar (column + 1) v) t := by
  cases v with
  | null => exact .inl rfl
  | flag b => cases b <;> exact .inr ⟨_, rfl, .plain (bare_flag _ _)⟩
  | number i => exact .inr ⟨_, rfl, .plain (bare_decimalInt i)⟩
  | text s => exact .inr ⟨_, rfl, spelling_printText column nofun⟩

end HostPlan.Yaml
