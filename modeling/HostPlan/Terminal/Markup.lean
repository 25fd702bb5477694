import HostPlan.Terminal.Line
/-!
Styled text. Tags in square brackets change the style of the text behind them; the terminal of this
library knows no styles, so tags leave nothing behind. Backslashes in front of a bracket keep it
from being a tag.
-/
namespace HostPlan.Terminal

def startsTag (c : Char) : Bool := c.isLower || c == '#' || c == '/' || c == '@'

/-- What follows a tag at the start of the text. -/
def afterTag? : List Char → Option (List Char)
  | '[' :: c :: r =>
    if startsTag c then
      match r.dropWhile fun c => c != '[' && c != ']' with
      | ']' :: rest => some rest
      | _ => none
    else none
  | _ => none

/-- The text without tags. The number counts the backslashes that stand before it. -/
def withoutTags : Nat → Nat → List Char → List Char
  | 0, slashes, s => List.replicate slashes '\\' ++ s
  | _ + 1, slashes, [] => List.replicate slashes '\\'
  | fuel + 1, slashes, c :: r =>
    if c = '\\' then withoutTags fuel (slashes + 1) r
    else
      match afterTag? (c :: r) with
      | some rest =>
        let kept := List.replicate (slashes / 2) '\\'
        if slashes % 2 = 1 then
          kept ++ (c :: r).take ((c :: r).length - rest.length) ++ withoutTags fuel 0 rest
        else kept ++ withoutTags fuel 0 rest
      | none =>
        let kept := if c = '[' then slashes - 1 else slashes
        List.replicate kept '\\' ++ c :: withoutTags fuel 0 r

/-- What styled text says. -/
def plainText (s : String) : String :=
  String.ofList (withoutTags (s.length + 1) 0 s.toList)

def printedMarkup (s : String) : String := printed (plainText s)

end HostPlan.Terminal
