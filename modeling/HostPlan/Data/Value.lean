import HostPlan.Data.Entries
import HostPlan.Data.Scalar
/-!
Structured data, as documents in JSON and YAML hold it.
-/
namespace HostPlan

inductive Value where
  | null
  | flag (b : Bool)
  | number (i : Int)
  /-- A number that is not whole, kept as the shortest decimal that names it. -/
  | real (shortest : String)
  | text (s : String)
  | list (items : List Value)
  | record (fields : List (String × Value))
deriving Repr, Inhabited

namespace Value

mutual

def same : Value → Value → Bool
  | .null, .null => true
  | .flag a, .flag b => a == b
  | .number i, .number j => i == j
  | .real r, .real t => r == t
  | .text s, .text t => s == t
  | .list vs, .list ws => sameItems vs ws
  | .record fs, .record gs => sameFields fs gs
  | _, _ => false

def sameItems : List Value → List Value → Bool
  | [], [] => true
  | v :: vs, w :: ws => same v w && sameItems vs ws
  | _, _ => false

def sameFields : List (String × Value) → List (String × Value) → Bool
  | [], [] => true
  | (k, v) :: fs, (l, w) :: gs => k == l && same v w && sameFields fs gs
  | _, _ => false

end

mutual

theorem same_iff (v w : Value) : same v w = true ↔ v = w := by
  cases v with
  | list vs => cases w <;> simp [same, sameItems_iff vs]
  | record fs => cases w <;> simp [same, sameFields_iff fs]
  | _ => cases w <;> simp [same]

theorem sameItems_iff (vs ws : List Value) : sameItems vs ws = true ↔ vs = ws := by
  cases vs with
  | nil => cases ws <;> simp [sameItems]
  | cons v vs => cases ws <;> simp [sameItems, same_iff v, sameItems_iff vs]

theorem sameFields_iff (fs gs : List (String × Value)) : sameFields fs gs = true ↔ fs = gs := by
  cases fs with
  | nil => cases gs <;> simp [sameFields]
  | cons f fs =>
    cases gs with
    | nil => simp [sameFields]
    | cons g gs => simp [sameFields, same_iff f.2, sameFields_iff fs, Prod.ext_iff]

end

instance : DecidableEq Value := fun v w => decidable_of_iff (same v w = true) (same_iff v w)

/-- The value says something: it is neither null nor false nor zero nor empty. -/
def isFilled : Value → Bool
  | .null => false
  | .flag b => b
  | .number i => i != 0
  | .real r => r != "0.0" && r != "-0.0"
  | .text s => s != ""
  | .list items => !items.isEmpty
  | .record fields => !fields.isEmpty

/-- The first value, unless it says nothing. -/
def orElse (v w : Value) : Value := if v.isFilled then v else w

def isNull : Value → Bool
  | .null => true
  | _ => false

def ofScalar : Scalar → Value
  | .null => .null
  | .flag b => .flag b
  | .number i => .number i
  | .text s => .text s

def scalar? : Value → Option Scalar
  | .null => some .null
  | .flag b => some (.flag b)
  | .number i => some (.number i)
  | .text s => some (.text s)
  | _ => none

def text? : Value → Option String
  | .text s => some s
  | _ => none

def list? : Value → Option (List Value)
  | .list items => some items
  | _ => none

def record? : Value → Option (List (String × Value))
  | .record fields => some fields
  | _ => none

/-- The value under a key, null where there is none. -/
def field (key : String) : Value → Value
  | .record fields => (Entries.get? key fields).getD .null
  | _ => .null

def ofOption {α : Type} (f : α → Value) : Option α → Value
  | some a => f a
  | none => .null

/-- Fields without those that hold null. -/
def known (fields : List (String × Value)) : Value :=
  .record (fields.filter fun f => !f.2.isNull)

@[simp] theorem scalar?_text (s : String) : scalar? (.text s) = some (.text s) := rfl

theorem scalar?_ofScalar (s : Scalar) : scalar? (ofScalar s) = some s := by
  cases s <;> rfl

end Value
end HostPlan
