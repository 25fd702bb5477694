import HostPlan.Declaration.Rule
import HostPlan.Source.Chain
/-!
Databases: servers that a chain declares, and the databases that a chain adds to a server.
-/
namespace HostPlan.Declaration

open Source

def engine? : String → Option Engine
  | "AddPostgres" | "AddAzurePostgresFlexibleServer" | "AddPostgresContainer" => some .postgres
  | "AddSqlServer" | "AddAzureSqlServer" => some .sqlserver
  | "AddMySql" | "AddMySqlContainer" => some .mysql
  | "AddMongoDB" | "AddMongoDBContainer" => some .mongodb
  | "AddRedis" | "AddRedisContainer" => some .redis
  | _ => none

def databaseRules : Rules Database
  | "WithImage" => some (.overwrite MethodCall.literal? fun v d => { d with image := v })
  | "WithImageTag" => some (.overwrite MethodCall.literal? fun v d => { d with imageTag := v })
  | "WithHostPort" => some (.reset MethodCall.firstPort fun v d => { d with hostPort := v })
  | "WithDataVolume" => some (.always fun d => { d with hasDataVolume := true })
  | "WithEnvironment" =>
    some (.accumulate (.ok ∘ MethodCall.environmentVariable?)
      fun v d => { d with environment := d.environment ++ [v] })
  | "RunAsContainer" => some .replay
  | _ => none

/-- The database of a chain, a postgres one if its factory method is not known. -/
def database (c : Chain) : Reading Database :=
  applyCalls databaseRules 0 c.calls {
    name := c.name
    kind := .engine ((engine? c.rootMethod).getD .postgres)
    boundTo := c.boundTo }

def childMethod : String := "AddDatabase"

/-- The last chain that is bound to a variable. The empty name binds nothing. -/
def bound? (chains : List Chain) (v : Option String) : Option Chain :=
  if v = some "" then none
  else v.bind fun v => chains.reverse.find? fun c => c.boundTo == some v

/-- The database that a chain adds to a server. It takes over the kind, the image, the port and the
volume of a server that the program declares. -/
def child (chains : List Chain) (c : Chain) : Reading Database := do
  let parent := bound? chains c.base?
  let d : Database := {
    name := c.name
    boundTo := c.boundTo
    serverName := parent.map Chain.name
    serverVariable := c.base? }
  match parent with
  | none => pure d
  | some p =>
    match engine? p.rootMethod with
    | none => pure d
    | some _ =>
      let server ← database p
      pure { d with
        kind := server.kind
        image := server.image
        imageTag := server.imageTag
        hostPort := server.hostPort
        hasDataVolume := server.hasDataVolume }

def children (chains : List Chain) : Reading (List Database) :=
  (chains.filter fun c => c.rootMethod == childMethod).mapM (child chains)

/-- The database is the server of one of the children. -/
def isServerOf (children : List Database) (d : Database) : Bool :=
  match d.boundTo with
  | none => false
  | some v => v != "" && children.any fun c => c.serverVariable == some v

/-- The databases without those that only serve as a server. -/
def withoutServers (databases children : List Database) : List Database :=
  databases.filter fun d => !isServerOf children d

end HostPlan.Declaration
