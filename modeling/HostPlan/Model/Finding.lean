import HostPlan.Model.Basic
/-!
Findings about a model: names that are given twice, and uses of names that nobody has. A model with
findings stays usable.
-/
namespace HostPlan

/-- What an application does with a name. -/
inductive Use where
  | reference
  | waitFor
deriving DecidableEq, Repr

def Use.label : Use → String
  | .reference => "reference"
  | .waitFor => "wait-for target"

inductive Finding where
  | duplicate (name : String)
  | unresolved (use : Use) (owner target : String)
deriving DecidableEq, Repr

def Finding.message : Finding → String
  | .duplicate name => "Duplicate resource name: " ++ name
  | .unresolved use owner target =>
    "Unresolved " ++ use.label ++ " in " ++ owner ++ ": " ++ target

/-- The names that occurred before, one for each further occurrence. -/
def repeated (seen : List String) : List String → List String
  | [] => []
  | n :: r => if n ∈ seen then n :: repeated seen r else repeated (n :: seen) r

namespace Model

def duplicates (m : Model) : List Finding :=
  (repeated [] (m.named.map Resource.name)).map .duplicate

def unresolved (m : Model) (use : Use) (owner : String) (targets : List String) : List Finding :=
  (targets.filter fun t => (m.resolveAny? t).isNone).map (.unresolved use owner)

def findings (m : Model) : List Finding :=
  m.duplicates ++
    (m.applications.flatMap fun a =>
      m.unresolved .reference a.name a.references ++
        m.unresolved .waitFor a.name (a.waitFor.getD [])) ++
    m.services.flatMap fun s => m.unresolved .reference s.name s.references

end Model
end HostPlan
