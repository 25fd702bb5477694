import HostPlan.Data.Json.Printer
import HostPlan.Data.Yaml.Printer
import HostPlan.Model.Document
import HostPlan.Plan.Operation
/-!
Models and plans as documents for other programs. In YAML the remark of an operation is a comment
behind its endpoint; in JSON, which has no comments, it is a field.
-/
namespace HostPlan

inductive Format where
  | json
  | yaml
deriving DecidableEq, Repr

namespace Format

def name : Format → String
  | .json => "json"
  | .yaml => "yaml"

def all : List Format := [.json, .yaml]

def ofName? (s : String) : Option Format := all.find? fun f => f.name == s

/-- What is said about a name that is no format. -/
def unsupported (s : String) : String :=
  "Unsupported export format '" ++ s ++ "' (expected one of " ++
    Text.joined ", " (all.map name) ++ ")"

end Format

namespace Operation

def document (o : Operation) : Value := o.toValue.prune

/-- The operation as a node: its remark is no field. -/
def node (o : Operation) : Yaml.Node :=
  let note :=
    match o.note with
    | some "" => none
    | n => n
  (Yaml.Node.ofValue { o with note := none }.document).remark "endpoint" note

end Operation

def exportOperations (os : List Operation) : Format → String
  | .json =>
    Json.render Json.indented (.record [("operations", .list (os.map Operation.document))]) ++ "\n"
  | .yaml => Yaml.render (.record [("operations", none, .list (os.map Operation.node))])

/-- The text of a model; a compact one is a single line of JSON. -/
def Model.exported (m : Model) (compact : Bool) : Format → String
  | .json => Json.render (if compact then Json.spaced else Json.indented) m.toValue ++ "\n"
  | .yaml => Yaml.render (.ofValue m.toValue)

end HostPlan
