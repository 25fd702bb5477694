import HostPlan.Model.Basic
import HostPlan.Plan.Kind
import HostPlan.Plan.Target
/-!
What is sent to create a resource.
-/
namespace HostPlan

def imageReference (image imageTag : Option String) : Option String :=
  match image with
  | none => none
  | some "" => none
  | some i =>
    match imageTag with
    | none => some i
    | some "" => some i
    | some t => some (i ++ ":" ++ t)

/-- A port that is given and is not zero. -/
def usedPort? : Option Int → Option Int
  | some 0 => none
  | p => p

namespace Database

/-- A database on a substituted engine does not take its image along. -/
def payload (d : Database) (target : Target) (instant : Scalar) : Payload :=
  target.payload ++
    [("name", .text d.name), ("instant_deploy", instant.orDefault (.flag true))] ++
    (match imageReference d.image d.imageTag with
      | some i => if d.kind.isSubstituted then [] else [("image", .text i)]
      | none => []) ++
    match usedPort? d.hostPort with
    | some p => [("is_public", .flag true), ("public_port", .number p)]
    | none => []

end Database

/-- What creates a service of some kind, whatever it stores. -/
def servicePayload (kind name : String) (target : Target) (instant : Scalar) : Payload :=
  target.payload ++
    [("type", .text (remoteServiceKind kind)), ("name", .text name),
      ("instant_deploy", instant.orDefault (.flag true))]

/-- How an application comes to the platform. -/
inductive Flavor where
  | privateRepository
  | publicRepository
  | image
deriving DecidableEq, Repr

def Flavor.name : Flavor → String
  | .privateRepository => "private-github-app"
  | .publicRepository => "public"
  | .image => "dockerimage"

namespace Application

/-- The port of an endpoint as seen from outside; the target port goes first. -/
def exposedPort? (e : Endpoint) : Option Int := (usedPort? e.targetPort).or (usedPort? e.port)

def ports (a : Application) : String :=
  match a.endpoints.filterMap exposedPort? with
  | [] => "80"
  | ps => Text.joined "," (ps.map fun p => String.ofList (Text.decimalInt p))

/-- A path without one step that it may start with, to the same directory or to the one above. -/
def withoutStep (path : List Char) : List Char :=
  match path with
  | '.' :: '/' :: r => r
  | '.' :: '.' :: '/' :: r => r
  | _ => path

/-- The directory of the application inside its repository; null stands for its root. -/
def directory (a : Application) (basePath : Scalar) : Scalar :=
  let base := basePath.orElse (.text "")
  let whole :=
    match a.sourcePath with
    | none => base
    | some "" => base
    | some path =>
      let clean := String.ofList (withoutStep path.toList)
      if base.isFilled then .text (base.display ++ "/" ++ clean) else .text clean
  whole.orElse .null

def commonFields (a : Application) : Payload :=
  [("name", .text a.name), ("ports_exposes", .text a.ports)]

def repositoryFields (a : Application) (r : Repository) (buildPack : Scalar) : Payload :=
  (if r.app.isFilled then [("github_app_uuid", r.app)] else []) ++
    [("git_repository", r.location), ("git_branch", r.branch.orElse (.text "main")),
      ("build_pack", buildPack.orElse (.text (remoteBuildPack a.buildPack)))] ++
    a.commonFields ++
    if (a.directory r.basePath).isFilled then [("base_directory", a.directory r.basePath)] else []

def imageFields (a : Application) : Payload :=
  let image :=
    match a.project with
    | none => a.name
    | some "" => a.name
    | some p => p
  [("docker_registry_image_name", .text image), ("docker_registry_image_tag", .text "latest")] ++
    a.commonFields

/-- The repository that an application is built from, if there is one. -/
def source? (repository : Option Repository) : Option Repository :=
  repository.filter fun r => r.location.isFilled

def flavor (repository : Option Repository) : Flavor :=
  match source? repository with
  | some r => if r.app.isFilled then .privateRepository else .publicRepository
  | none => .image

def payload (a : Application) (target : Target) (instant : Scalar) (repository : Option Repository)
    (buildPack : Scalar) : Payload :=
  target.payload ++
    (match source? repository with
      | some r => a.repositoryFields r buildPack
      | none => a.imageFields) ++
    [("instant_deploy", instant.orDefault (.flag false))]

end Application
end HostPlan
