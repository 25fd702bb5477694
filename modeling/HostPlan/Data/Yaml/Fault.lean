import HostPlan.Data.Display
import HostPlan.Data.Yaml.Scalar
import HostPlan.Text.Search
/-!
What is wrong with a YAML text, and where. A fault names the problem and the construct that was
being read, each with the line that it stands on.
-/
namespace HostPlan.Yaml

/-- A position in a text; lines and columns count from zero. -/
structure Mark where
  index : Nat := 0
  line : Nat := 0
  column : Nat := 0
deriving DecidableEq, Repr, Inhabited

inductive Fault where
  /-- A character that no document may hold. -/
  | unacceptable (c : Char) (index : Nat)
  | misplaced (context : Option (String × Mark)) (problem : String) (mark : Mark)
deriving Repr

namespace Fault

def problem (problem : String) (mark : Mark) : Fault := .misplaced none problem mark

def within (context : String) (start : Mark) (problem : String) (mark : Mark) : Fault :=
  .misplaced (some (context, start)) problem mark

/-- How much of a line is shown on each side of a position. -/
def shownWidth : Nat := 37

def endsLine (c : Char) : Bool := isBreak c || c == '\r' || c == '\x00'

def number (n : Nat) : List Char := Nat.toDigits 10 n

/-- The line of a position, with a caret below the position. -/
def snippet (text : List Char) (m : Mark) : List Char :=
  let before := ((text.take m.index).reverse.takeWhile fun c => !endsLine c).reverse
  let after := (text.drop m.index).takeWhile fun c => !endsLine c
  let headCut := decide (shownWidth ≤ before.length)
  let head := if headCut then before.drop (before.length - shownWidth + 4) else before
  let tail := if shownWidth ≤ after.length then after.take (shownWidth - 4) else after
  let headMark := if headCut then " ... ".toList else []
  let tailMark := if shownWidth ≤ after.length then " ... ".toList else []
  List.replicate 4 ' ' ++ headMark ++ head ++ tail ++ tailMark ++
    '\n' :: List.replicate (4 + head.length + headMark.length) ' ' ++
    "^ (line: ".toList ++ number (m.line + 1) ++ [')']

def place (text : List Char) (m : Mark) : List Char :=
  "  in \"<unicode string>\", line ".toList ++ number (m.line + 1) ++ ", column ".toList ++
    number (m.column + 1) ++ ":\n".toList ++ snippet text m

def message (text : List Char) : Fault → String
  | .unacceptable c index =>
    "unacceptable character #x" ++ String.ofList (Value.hexDigits 4 c.toNat) ++
      ": special characters are not allowed\n  in \"<unicode string>\", position " ++
      String.ofList (number index)
  | .misplaced context problem mark =>
    let opening :=
      match context with
      | none => []
      | some (what, start) =>
        what :: if start.line = mark.line ∧ start.column = mark.column then []
          else [String.ofList (place text start)]
    Text.joined "\n" (opening ++ [problem, String.ofList (place text mark)])

end Fault

def named (c : Char) : String := String.ofList (Value.quotedText [c])

end HostPlan.Yaml
