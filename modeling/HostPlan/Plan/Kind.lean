import HostPlan.Model.Kind
/-!
Kinds as the hosting platform knows them, and the variables by which an application learns how to
reach a database.
-/
namespace HostPlan

namespace Engine

def connectionEnv : Engine → String
  | .postgres => "DATABASE_URL"
  | .sqlserver => "SQLSERVER_CONNECTION_STRING"
  | .mysql => "MYSQL_URL"
  | .mongodb => "MONGODB_URL"
  | .redis => "REDIS_URL"

/-- The engine that the platform runs. It has no SQL Server and runs a postgres in its place. -/
def remoteName : Engine → String
  | .postgres | .sqlserver => "postgresql"
  | .mysql => "mysql"
  | .mongodb => "mongodb"
  | .redis => "redis"

def isSubstituted (e : Engine) : Bool := e == .sqlserver

end Engine

def defaultConnectionEnv : String := "CONNECTION_STRING"

namespace DatabaseKind

def connectionEnv : DatabaseKind → String
  | .engine e => e.connectionEnv
  | .other _ _ => defaultConnectionEnv

def remoteName : DatabaseKind → String
  | .engine e => e.remoteName
  | .other _ _ => "postgresql"

def isSubstituted : DatabaseKind → Bool
  | .engine e => e.isSubstituted
  | .other _ _ => false

/-- The warning that a database runs on another engine than the program asks for. -/
def substitution? (k : DatabaseKind) (name : String) : Option String :=
  if k.isSubstituted then
    let label := if name = "" then "" else "\"" ++ name ++ "\" "
    some ("Database " ++ label ++ "uses " ++ k.name ++
      ", which Coolify does not support; deploying as PostgreSQL instead.")
  else none

end DatabaseKind

/-- The type of service that runs a kind of container; other kinds keep their name. -/
def remoteServiceKind : String → String
  | "minio" | "azurite" => "minio-community-edition"
  | "maildev" => "mailpit"
  | kind => kind

/-- The build packs that a plan hands on as they are. -/
def passedBuildPacks : List String := ["dockerfile", "static", "dockercompose"]

def remoteBuildPack (pack : String) : String :=
  if pack ∈ passedBuildPacks then pack else "nixpacks"

end HostPlan
