import HostPlan.Text.Lower
/-!
Keys of a configuration. A key may be written in words joined by underscores or by capital letters;
the first of the two spellings is its name.
-/
namespace HostPlan.Config

def isCapital (c : Char) : Bool := decide ('A' ≤ c) && decide (c ≤ 'Z')

/-- An underscore in front of every capital letter. -/
def split (s : List Char) : List Char :=
  s.flatMap fun c => if isCapital c then ['_', c] else [c]

/-- The name of a key. A capital letter at its start begins no further word. -/
def keyName (key : String) : String :=
  match key.toList with
  | [] => ""
  | c :: r => String.ofList (Text.lower (c :: split r))

end HostPlan.Config
