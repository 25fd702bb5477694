import HostPlan.Model.Basic
import HostPlan.Plan.Kind
/-!
The edges of a model. A target that names a database, a service or a storage becomes an edge; a
target that names nothing, or only an application, becomes none.
-/
namespace HostPlan

/-- The edge from an owner to a resource. Only databases have an address to pass on. -/
def Reference.to (owner : String) (r : Resource) : Reference where
  source := owner
  target := r.name
  connectionEnv :=
    match r with
    | .database d => some d.kind.connectionEnv
    | _ => none

namespace Model

def linksOf (m : Model) (owner : String) (targets : List String) : List Reference :=
  targets.filterMap fun t => (m.resolve? t).map (Reference.to owner)

def links (m : Model) : List Reference := m.owners.flatMap fun o => m.linksOf o.1 o.2

end Model
end HostPlan
