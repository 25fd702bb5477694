import HostPlan.Data.Prune
import HostPlan.Model.Basic
/-!
The model as a document. Every record has its fields in a fixed order; what is unset is null and is
left out of the document of a whole model. A document is read back with the unset fields in place.
-/
namespace HostPlan

open Value

def texts (ss : List String) : Value := .list (ss.map .text)

namespace Value

def getText (key : String) (default : String) (v : Value) : String :=
  match v.field key with
  | .text s => s
  | _ => default

def getText? (key : String) (v : Value) : Option String := (v.field key).text?

def getNumber? (key : String) (v : Value) : Option Int :=
  match v.field key with
  | .number i => some i
  | _ => none

def getFlag (key : String) (default : Bool) (v : Value) : Bool :=
  match v.field key with
  | .flag b => b
  | _ => default

def getList (key : String) (v : Value) : List Value := ((v.field key).list?).getD []

def getTexts? (key : String) (v : Value) : Option (List String) :=
  (v.field key).list?.map fun vs => vs.filterMap Value.text?

def getTexts (key : String) (v : Value) : List String := (getTexts? key v).getD []

end Value

namespace Variable

def toValue (e : Variable) : Value :=
  .record [("key", .text e.key), ("value", .text e.value), ("is_expression", .flag e.isExpression)]

def ofValue (v : Value) : Variable where
  key := v.getText "key" ""
  value := v.getText "value" ""
  isExpression := v.getFlag "is_expression" false

end Variable

namespace Volume

def toValue (e : Volume) : Value :=
  .record [("name", ofOption .text e.name), ("mount_path", ofOption .text e.mountPath),
    ("is_data", .flag e.isData)]

def ofValue (v : Value) : Volume where
  name := v.getText? "name"
  mountPath := v.getText? "mount_path"
  isData := v.getFlag "is_data" false

end Volume

namespace Endpoint

def toValue (e : Endpoint) : Value :=
  .record [("protocol", .text e.protocol), ("is_external", .flag e.isExternal),
    ("name", ofOption .text e.name), ("port", ofOption .number e.port),
    ("target_port", ofOption .number e.targetPort),
    ("env_variable", ofOption .text e.envVariable)]

def ofValue (v : Value) : Endpoint where
  protocol := v.getText "protocol" "http"
  isExternal := v.getFlag "is_external" false
  name := v.getText? "name"
  port := v.getNumber? "port"
  targetPort := v.getNumber? "target_port"
  envVariable := v.getText? "env_variable"

end Endpoint

namespace Database

def toValue (d : Database) : Value :=
  .record [("name", .text d.name), ("type", .text d.kind.name),
    ("variable_name", ofOption .text d.boundTo), ("server_name", ofOption .text d.serverName),
    ("server_variable_name", ofOption .text d.serverVariable),
    ("image", ofOption .text d.image), ("image_tag", ofOption .text d.imageTag),
    ("host_port", ofOption .number d.hostPort), ("has_data_volume", .flag d.hasDataVolume),
    ("environment", .list (d.environment.map Variable.toValue))]

def ofValue (v : Value) : Database where
  name := v.getText "name" ""
  kind := DatabaseKind.ofName (v.getText "type" "postgres")
  boundTo := v.getText? "variable_name"
  serverName := v.getText? "server_name"
  serverVariable := v.getText? "server_variable_name"
  image := v.getText? "image"
  imageTag := v.getText? "image_tag"
  hostPort := v.getNumber? "host_port"
  hasDataVolume := v.getFlag "has_data_volume" false
  environment := (v.getList "environment").map Variable.ofValue

end Database

namespace Service

def toValue (s : Service) : Value :=
  .record [("name", .text s.name), ("type", .text s.kind),
    ("variable_name", ofOption .text s.boundTo), ("image", ofOption .text s.image),
    ("image_tag", ofOption .text s.imageTag), ("host_port", ofOption .number s.hostPort),
    ("environment", .list (s.environment.map Variable.toValue)),
    ("volumes", .list (s.volumes.map Volume.toValue)),
    ("endpoints", .list (s.endpoints.map Endpoint.toValue)), ("references", texts s.references)]

def ofValue (v : Value) : Service where
  name := v.getText "name" ""
  kind := v.getText "type" "custom"
  boundTo := v.getText? "variable_name"
  image := v.getText? "image"
  imageTag := v.getText? "image_tag"
  hostPort := v.getNumber? "host_port"
  environment := (v.getList "environment").map Variable.ofValue
  volumes := (v.getList "volumes").map Volume.ofValue
  endpoints := (v.getList "endpoints").map Endpoint.ofValue
  references := v.getTexts "references"

end Service

namespace Storage

def toValue (s : Storage) : Value :=
  .record [("name", .text s.name), ("type", .text s.kind),
    ("variable_name", ofOption .text s.boundTo), ("image", ofOption .text s.image),
    ("image_tag", ofOption .text s.imageTag), ("host_port", ofOption .number s.hostPort),
    ("environment", .list (s.environment.map Variable.toValue)),
    ("volumes", .list (s.volumes.map Volume.toValue))]

def ofValue (v : Value) : Storage where
  name := v.getText "name" ""
  kind := v.getText "type" "minio"
  boundTo := v.getText? "variable_name"
  image := v.getText? "image"
  imageTag := v.getText? "image_tag"
  hostPort := v.getNumber? "host_port"
  environment := (v.getList "environment").map Variable.ofValue
  volumes := (v.getList "volumes").map Volume.ofValue

end Storage

namespace Application

def toValue (a : Application) : Value :=
  .record [("name", .text a.name), ("type", .text a.kind), ("build_pack", .text a.buildPack),
    ("variable_name", ofOption .text a.boundTo), ("source_path", ofOption .text a.sourcePath),
    ("project", ofOption .text a.project), ("publish_mode", ofOption .text a.publishMode),
    ("environment", .list (a.environment.map Variable.toValue)),
    ("endpoints", .list (a.endpoints.map Endpoint.toValue)), ("references", texts a.references),
    ("wait_for", ofOption texts a.waitFor), ("run_script", ofOption .text a.runScript),
    ("npm_install_command", ofOption .text a.npmInstallCommand)]

def ofValue (v : Value) : Application where
  name := v.getText "name" ""
  kind := v.getText "type" "project"
  buildPack := v.getText "build_pack" "dockerfile"
  boundTo := v.getText? "variable_name"
  sourcePath := v.getText? "source_path"
  project := v.getText? "project"
  publishMode := v.getText? "publish_mode"
  environment := (v.getList "environment").map Variable.ofValue
  endpoints := (v.getList "endpoints").map Endpoint.ofValue
  references := v.getTexts "references"
  waitFor := v.getTexts? "wait_for"
  runScript := v.getText? "run_script"
  npmInstallCommand := v.getText? "npm_install_command"

end Application

namespace Reference

/-- An edge without a connection string, or with an empty one, has no field for it. -/
def toValue (r : Reference) : Value :=
  .record ([("from", .text r.source), ("to", .text r.target)] ++
    match r.connectionEnv with
    | none => []
    | some "" => []
    | some s => [("connection_string_env", .text s)])

def ofValue (v : Value) : Reference where
  source := v.getText "from" ""
  target := v.getText "to" ""
  connectionEnv := v.getText? "connection_string_env"

end Reference

namespace Model

def toValue (m : Model) : Value :=
  .record [("databases", .list (m.databases.map fun d => d.toValue.prune)),
    ("storage", .list (m.storage.map fun s => s.toValue.prune)),
    ("services", .list (m.services.map fun s => s.toValue.prune)),
    ("applications", .list (m.applications.map fun a => a.toValue.prune)),
    ("references", .list (m.references.map Reference.toValue))]

def ofValue (v : Value) : Model where
  databases := (v.getList "databases").map Database.ofValue
  storage := (v.getList "storage").map Storage.ofValue
  services := (v.getList "services").map Service.ofValue
  applications := (v.getList "applications").map Application.ofValue
  references := (v.getList "references").map Reference.ofValue

end Model
end HostPlan
