import HostPlan.Text.Path
/-!
The name of a project, taken from where its program lies. The directory of a program is commonly
named after the project with a suffix of its own, which is no part of the name.
-/
namespace HostPlan

open Text

/-- The text without any occurrence of a piece. -/
def without (piece : List Char) : Nat → List Char → List Char
  | 0, s => s
  | _ + 1, [] => []
  | fuel + 1, c :: r =>
    if piece.isPrefixOf (c :: r) then without piece fuel ((c :: r).drop piece.length)
    else c :: without piece fuel r

def hostSuffix : List Char := "AppHost".toList

/-- The name of the project of a program, given the steps to its file. -/
def projectName (file : List (List Char)) : String :=
  let above := file.reverse.tail
  let default := "AspireApp".toList
  let own := (above.head?).getD default
  let parent := (above.tail.head?).getD []
  let name :=
    if holds ('.' :: hostSuffix) own then without ('.' :: hostSuffix) own.length own
    else if holds hostSuffix own then
      let rest := without hostSuffix own.length own
      if !rest.isEmpty then rest else if !parent.isEmpty then parent else default
    else if !parent.isEmpty then parent
    else own
  String.ofList name

end HostPlan
