import HostPlan.Text.Numeral
/-!
Simple values: what a payload holds under a key, and what a setting says.
-/
namespace HostPlan

inductive Scalar where
  | null
  | flag (b : Bool)
  | number (i : Int)
  | text (s : String)
deriving DecidableEq, Repr, Inhabited

namespace Scalar

/-- The value says something: it is neither null nor false nor zero nor empty. -/
def isFilled : Scalar → Bool
  | .null => false
  | .flag b => b
  | .number i => i != 0
  | .text s => s != ""

/-- The first value, unless it says nothing. -/
def orElse (v w : Scalar) : Scalar := if v.isFilled then v else w

def isNull : Scalar → Bool
  | .null => true
  | _ => false

/-- The second value stands in for an absent first one. -/
def orDefault (v w : Scalar) : Scalar := if v.isNull then w else v

/-- The value as it reads inside a line of text. -/
def display : Scalar → String
  | .null => "None"
  | .flag true => "True"
  | .flag false => "False"
  | .number i => String.ofList (Text.decimalInt i)
  | .text s => s

def ofText? : Option String → Scalar
  | some s => .text s
  | none => .null

end Scalar
end HostPlan
