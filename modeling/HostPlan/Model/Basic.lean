import HostPlan.Model.Kind
/-!
The application model: databases, storage, services and applications with their settings, and the
references from one to another. A resource has a declared name and perhaps the variable it is bound
to; a reference may use either.
-/
namespace HostPlan

structure Variable where
  key : String
  value : String
  /-- The value is an expression of the program, not a text. -/
  isExpression : Bool := false
deriving DecidableEq, Repr, Inhabited

structure Volume where
  name : Option String := none
  mountPath : Option String := none
  isData : Bool := false
deriving DecidableEq, Repr, Inhabited

structure Endpoint where
  protocol : String := "http"
  isExternal : Bool := false
  name : Option String := none
  port : Option Int := none
  targetPort : Option Int := none
  envVariable : Option String := none
deriving DecidableEq, Repr, Inhabited

structure Database where
  name : String
  kind : DatabaseKind := .engine .postgres
  boundTo : Option String := none
  serverName : Option String := none
  serverVariable : Option String := none
  image : Option String := none
  imageTag : Option String := none
  hostPort : Option Int := none
  hasDataVolume : Bool := false
  environment : List Variable := []
deriving DecidableEq, Inhabited

structure Service where
  name : String
  kind : String := "custom"
  boundTo : Option String := none
  image : Option String := none
  imageTag : Option String := none
  hostPort : Option Int := none
  environment : List Variable := []
  volumes : List Volume := []
  endpoints : List Endpoint := []
  references : List String := []
deriving DecidableEq, Repr, Inhabited

structure Storage where
  name : String
  kind : String := "minio"
  boundTo : Option String := none
  image : Option String := none
  imageTag : Option String := none
  hostPort : Option Int := none
  environment : List Variable := []
  volumes : List Volume := []
deriving DecidableEq, Repr, Inhabited

structure Application where
  name : String
  kind : String := "project"
  buildPack : String := "dockerfile"
  boundTo : Option String := none
  sourcePath : Option String := none
  /-- The type argument that names the project. -/
  project : Option String := none
  publishMode : Option String := none
  environment : List Variable := []
  endpoints : List Endpoint := []
  references : List String := []
  waitFor : Option (List String) := none
  runScript : Option String := none
  npmInstallCommand : Option String := none
deriving DecidableEq, Repr, Inhabited

/-- An edge from an application or a service to what it uses. -/
structure Reference where
  source : String
  target : String
  connectionEnv : Option String := none
deriving DecidableEq, Repr, Inhabited

structure Model where
  databases : List Database := []
  storage : List Storage := []
  services : List Service := []
  applications : List Application := []
  references : List Reference := []
deriving DecidableEq, Inhabited

inductive Category where
  | project
  | database
  | storage
  | service
  | application
  | other (name : String)
deriving DecidableEq, Repr

namespace Category

def name : Category → String
  | .project => "project"
  | .database => "database"
  | .storage => "storage"
  | .service => "service"
  | .application => "application"
  | .other s => s

def ofName : String → Category
  | "project" => .project
  | "database" => .database
  | "storage" => .storage
  | "service" => .service
  | "application" => .application
  | s => .other s

@[simp] theorem name_ofName (s : String) : (ofName s).name = s := by
  unfold ofName
  split <;> rfl

end Category

inductive Resource where
  | database (d : Database)
  | storage (s : Storage)
  | service (s : Service)
  | application (a : Application)
deriving DecidableEq, Inhabited

namespace Resource

def name : Resource → String
  | .database d => d.name
  | .storage s => s.name
  | .service s => s.name
  | .application a => a.name

def boundTo : Resource → Option String
  | .database d => d.boundTo
  | .storage s => s.boundTo
  | .service s => s.boundTo
  | .application a => a.boundTo

def kindName : Resource → String
  | .database d => d.kind.name
  | .storage s => s.kind
  | .service s => s.kind
  | .application a => a.kind

def category : Resource → Category
  | .database _ => .database
  | .storage _ => .storage
  | .service _ => .service
  | .application _ => .application

/-- The resource answers to a name that the program uses for it. -/
def answersTo (ref : String) (r : Resource) : Bool := r.boundTo == some ref || r.name == ref

end Resource

namespace Model

/-- All resources in the order in which they are created: an application comes after what it uses.
-/
def resources (m : Model) : List Resource :=
  m.databases.map .database ++ m.storage.map .storage ++ m.services.map .service ++
    m.applications.map .application

/-- The resources that a reference may mean, in the order in which they are tried. -/
def backing (m : Model) : List Resource :=
  m.databases.map .database ++ m.services.map .service ++ m.storage.map .storage

/-- The same with the applications last. -/
def named (m : Model) : List Resource := m.backing ++ m.applications.map .application

/-- The resource that a connection to this name uses. -/
def resolve? (m : Model) (ref : String) : Option Resource :=
  m.backing.find? (Resource.answersTo ref)

/-- The resource of this name, an application included. -/
def resolveAny? (m : Model) (ref : String) : Option Resource :=
  m.named.find? (Resource.answersTo ref)

/-- Who declares which reference targets: applications first, then services. -/
def owners (m : Model) : List (String × List String) :=
  m.applications.map (fun a => (a.name, a.references)) ++
    m.services.map fun s => (s.name, s.references)

end Model
end HostPlan
