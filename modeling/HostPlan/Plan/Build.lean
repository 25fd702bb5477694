import HostPlan.Plan.Environment
import HostPlan.Plan.Operation
import HostPlan.Plan.Payload
/-!
From a model to a plan: one operation for each resource, databases first and applications last, and
before them one for the project when no more than its name is known.
-/
namespace HostPlan

/-- What the user asks of a plan. Null stands for everything that is not given. -/
structure Options where
  withNotes : Bool := true
  project : Scalar := .null
  projectName : Scalar := .null
  server : Scalar := .null
  environmentName : Scalar := .null
  instant : Scalar := .null
  repository : Option Repository := none
  buildPack : Scalar := .null
deriving DecidableEq, Repr

namespace Options

def target (o : Options) : Target := Target.filled ⟨o.server, o.project, o.environmentName⟩

def note (o : Options) (label name kind : String) : Option String :=
  if o.withNotes then some (label ++ ": " ++ name ++ " (" ++ kind ++ ")") else none

/-- The operation that creates the project, if the plan needs one. -/
def projectOperation? (o : Options) : Option Operation :=
  if o.projectName.isFilled && !o.project.isFilled then
    some {
      endpoint := "/projects"
      payload := [("name", o.projectName)]
      displayName := o.projectName.display
      category := .project
      note := if o.withNotes then some ("Project: " ++ o.projectName.display) else none }
  else none

end Options

def Resource.operation (m : Model) (o : Options) (r : Resource) : Operation :=
  match r with
  | .database d => {
      endpoint := "/databases/" ++ d.kind.remoteName
      payload := d.payload o.target o.instant
      displayName := d.name
      category := .database
      note := o.note "Database" d.name d.kind.name }
  | .storage s => {
      endpoint := "/services"
      payload := servicePayload s.kind s.name o.target o.instant
      displayName := s.name
      category := .storage
      note := o.note "Storage" s.name s.kind }
  | .service s => {
      endpoint := "/services"
      payload := servicePayload s.kind s.name o.target o.instant
      displayName := s.name
      category := .service
      note := o.note "Service" s.name s.kind }
  | .application a => {
      endpoint := "/applications/" ++ (Application.flavor o.repository).name
      payload := a.payload o.target o.instant o.repository o.buildPack
      displayName := a.name
      category := .application
      note := o.note "Application" a.name a.kind
      environment := a.runtime m }

def Resource.warning? : Resource → Option String
  | .database d => d.kind.substitution? d.name
  | _ => none

namespace Model

def operations (m : Model) (o : Options) : List Operation :=
  o.projectOperation?.toList ++ m.resources.map (Resource.operation m o)

/-- The warnings about resources that cannot be created as they are declared. -/
def warnings (m : Model) : List String := m.resources.filterMap Resource.warning?

end Model
end HostPlan
