import HostPlan.Data.Display
import HostPlan.Model.Basic
import HostPlan.Remote.Call
/-!
What exists before a deployment: the names that the platform lists, with their identifiers. Services
and storage are listed together.
-/
namespace HostPlan.Deploy

open Remote

/-- Name and identifier of a listed thing. It counts only if it has a name. -/
def listed? (item : Value) : Option (Scalar × Value) := do
  let fields ← item.record?
  let name ← (item.field "name").scalar?
  if name.isFilled then some (name, (Entries.get? "uuid" fields).getD (.text "")) else none

/-- The names of a listing; a failed one, or one that is no list, has none. -/
def names : Answer → Entries Scalar Value
  | .success (.list items) => Entries.ofList (items.filterMap listed?)
  | _ => []

structure Inventory where
  databases : Entries Scalar Value := []
  applications : Entries Scalar Value := []
  services : Entries Scalar Value := []
deriving Inhabited

namespace Inventory

def of (databases applications services : Answer) : Inventory :=
  ⟨names databases, names applications, names services⟩

def lookup (inventory : Inventory) : Category → Entries Scalar Value
  | .database => inventory.databases
  | .application => inventory.applications
  | _ => inventory.services

/-- The identifier of a resource that exists already. Null identifies nothing. -/
def existing? (inventory : Inventory) (r : Resource) : Option Value :=
  (Entries.get? (.text r.name) (inventory.lookup r.category)).filter fun v => !v.isNull

end Inventory
end HostPlan.Deploy
