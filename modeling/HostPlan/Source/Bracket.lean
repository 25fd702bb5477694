import HostPlan.Source.Literal
import HostPlan.Source.Normal
/-!
Brackets. The three kinds of bracket nest, brackets and commas inside a literal count for nothing,
and a closing bracket of any kind closes the innermost open one; only the bracket that ends the
whole has to be a parenthesis.
-/
namespace HostPlan.Source

open Text

def isOpener (c : Char) : Bool := c == '(' || c == '[' || c == '{'
def isCloser (c : Char) : Bool := c == ')' || c == ']' || c == '}'

/-- Whether the next character is code or stands in a literal. -/
inductive Place where
  | code
  | literal (quote : Char)
  | escape (quote : Char)
deriving DecidableEq, Repr

def Place.next : Place → Char → Place
  | .code, c => if isQuote c then .literal c else .code
  | .literal q, c => if c = '\\' then .escape q else if c = q then .code else .literal q
  | .escape q, _ => .literal q

/-- Reads on to the parenthesis that leaves no bracket open: the text before it and the text behind
it. There is none when the text ends first, or when another bracket closes the last open one. -/
def untilClosed (place : Place) (depth : Nat) : List Char → Option (List Char × List Char)
  | [] => none
  | c :: r =>
    if place = .code ∧ isCloser c then
      if depth ≤ 1 then if depth = 1 ∧ c = ')' then some ([], r) else none
      else (untilClosed .code (depth - 1) r).map fun (a, b) => (c :: a, b)
    else
      let depth := if place = .code ∧ isOpener c then depth + 1 else depth
      (untilClosed (place.next c) depth r).map fun (a, b) => (c :: a, b)

/-- Where the first group of brackets in the text closes. -/
def closingParen? (s : List Char) : Option Nat := (untilClosed .code 0 s).map fun (a, _) => a.length

/-- Reads on to the angle bracket that leaves none open, and over the spaces behind it. Type
arguments hold neither a parenthesis nor the end of a statement. -/
def afterTypeArguments (depth : Nat) : List Char → Option (List Char)
  | [] => none
  | c :: r =>
    if c = '<' then afterTypeArguments (depth + 1) r
    else if c = '>' then
      if depth ≤ 1 then some (r.dropWhile (· == ' ')) else afterTypeArguments (depth - 1) r
    else if c = '(' ∨ c = ')' ∨ c = ';' then none
    else afterTypeArguments depth r

/-- The text behind the list of type arguments that it may start with, `none` if that never closes.
-/
def skipTypeArguments : List Char → Option (List Char)
  | '<' :: r => afterTypeArguments 1 r
  | s => some s

/-- The text cut at its top-level commas. A bracket that closes what was never opened hides the
commas behind it. -/
def cutCommas (place : Place) (depth : Int) : List Char → List (List Char)
  | [] => [[]]
  | c :: r =>
    if place = .code then
      if c = ',' ∧ depth = 0 then [] :: cutCommas .code 0 r
      else
        let depth := if isOpener c then depth + 1 else if isCloser c then depth - 1 else depth
        extend c (cutCommas (place.next c) depth r)
    else extend c (cutCommas (place.next c) depth r)

/-- The pieces without a last one that is empty. -/
def dropEmptyLast : List (List Char) → List (List Char)
  | [] => []
  | [p] => if p.isEmpty then [] else [p]
  | p :: r => p :: dropEmptyLast r

/-- The arguments that stand between two parentheses, trimmed. -/
def arguments (s : List Char) : List (List Char) :=
  dropEmptyLast ((cutCommas .code 0 s).map trim)

theorem eq_append_of_untilClosed {p : Place} {d : Nat} {s a b : List Char}
    (h : untilClosed p d s = some (a, b)) : s = a ++ ')' :: b := by
  induction s generalizing p d a b with
  | nil => simp [untilClosed] at h
  | cons c r ih =>
    rw [untilClosed] at h
    split at h
    · split at h
      · split at h
        · simp_all
        · cases h
      · obtain ⟨⟨a', b'⟩, h', he⟩ := Option.map_eq_some_iff.1 h
        simp only [Prod.mk.injEq] at he
        simp [← he.1, ← he.2, ih h']
    · obtain ⟨⟨a', b'⟩, h', he⟩ := Option.map_eq_some_iff.1 h
      simp only [Prod.mk.injEq] at he
      simp [← he.1, ← he.2, ih h']

theorem length_lt_of_untilClosed {p : Place} {d : Nat} {s a b : List Char}
    (h : untilClosed p d s = some (a, b)) : b.length < s.length := by
  simp [eq_append_of_untilClosed h]
  omega

theorem afterTypeArguments_length_le {d : Nat} {s r : List Char}
    (h : afterTypeArguments d s = some r) : r.length ≤ s.length := by
  induction s generalizing d with
  | nil => simp [afterTypeArguments] at h
  | cons c t ih =>
    rw [afterTypeArguments] at h
    split at h
    · exact Nat.le_succ_of_le (ih h)
    · split at h
      · split at h
        · rw [← Option.some.inj h]
          exact Nat.le_succ_of_le (List.dropWhile_sublist _).length_le
        · exact Nat.le_succ_of_le (ih h)
      · split at h
        · cases h
        · exact Nat.le_succ_of_le (ih h)

theorem skipTypeArguments_length_le {s r : List Char} (h : skipTypeArguments s = some r) :
    r.length ≤ s.length := by
  rw [skipTypeArguments.eq_def] at h
  split at h
  · exact Nat.le_succ_of_le (afterTypeArguments_length_le h)
  · exact Nat.le_of_eq (congrArg List.length (Option.some.inj h)).symm

end HostPlan.Source
