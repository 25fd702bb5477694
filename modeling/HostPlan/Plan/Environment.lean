import HostPlan.Model.Basic
import HostPlan.Plan.Kind
import HostPlan.Plan.Payload
/-!
The variables that an application expects when it runs: its own, one for every reference, and one
for every endpoint that names a variable for its port.
-/
namespace HostPlan

/-- A text to be replaced by what it names. -/
def interpolated (s : String) : String := "$\x7b" ++ s ++ "\x7d"

namespace Application

def ownVariables (a : Application) : List (String × String) :=
  a.environment.map fun v => (v.key, if v.isExpression then interpolated v.value else v.value)

def connectionVariable (r : Reference) : String × String :=
  let key :=
    match r.connectionEnv with
    | none => defaultConnectionEnv
    | some "" => defaultConnectionEnv
    | some k => k
  (key, interpolated (r.target ++ ".connectionString"))

def connectionVariables (a : Application) (m : Model) : List (String × String) :=
  (m.references.filter fun r => r.source == a.name).map connectionVariable

def portVariable? (e : Endpoint) : Option (String × String) :=
  match e.envVariable with
  | none => none
  | some "" => none
  | some key => some (key, String.ofList (Text.decimalInt ((usedPort? e.port).getD 3000)))

/-- All variables; a later one takes the place of an earlier one of the same name. -/
def runtime (a : Application) (m : Model) : Entries String String :=
  Entries.ofList
    (a.ownVariables ++ a.connectionVariables m ++ a.endpoints.filterMap portVariable?)

end Application
end HostPlan
