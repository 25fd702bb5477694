import HostPlan.Data.Display
import HostPlan.Plan.Target
import HostPlan.Text.Search
/-!
A configuration: what a user writes down once for all runs. Values stay as they were written;
nothing is made of them before they are used.
-/
namespace HostPlan.Config

/-- The platform that is deployed to. -/
structure Platform where
  apiUrl : Value := .null
  token : Value := .null
  projectId : Value := .null
  projectName : Value := .null
  serverId : Value := .null
  environmentName : Value := .null
  skipExisting : Value := .flag false
  instantDeploy : Value := .null
deriving Repr, Inhabited, BEq

structure RepositorySettings where
  repository : Value
  branch : Value := .text "main"
  basePath : Value := .null
  appUuid : Value := .null
deriving Repr, Inhabited, BEq

structure Output where
  includeComments : Value := .flag true
  format : Value := .text "shell"
deriving Repr, Inhabited, BEq

inductive Problem where
  | unreadable (path reason : String)
  | malformed (path details : String)
  | noMapping (path : String)
  | badSection (name kind : String)
  | badFormat (format : Value)
deriving Repr, BEq

def formats : List String := ["shell", "json", "yaml"]

def Problem.message : Problem → String
  | .unreadable path reason => "Cannot read config file " ++ path ++ ": " ++ reason
  | .malformed path details => "Malformed config file " ++ path ++ ": " ++ details
  | .noMapping path => "Config file " ++ path ++ " must contain a mapping at the top level"
  | .badSection name kind => "Section '" ++ name ++ "' must be a mapping, got " ++ kind
  | .badFormat format =>
    "output.format must be one of " ++ Text.joined ", " formats ++ ", got '" ++ format.display ++
      "'"

/-- A configuration cannot be had: it is refused with a message, its bytes are no text, or a number
in it is too long for the message that would refuse it. -/
inductive Failure where
  | refused (p : Problem)
  | undecodable
  | unspellable
deriving Repr

/-- A written value where a plain one is needed; a collection counts as its text. -/
def plain (v : Value) : Scalar :=
  match v.scalar? with
  | some s => s
  | none => if v.isFilled then .text v.display else .text ""

def RepositorySettings.toRepository (r : RepositorySettings) : Repository where
  location := plain r.repository
  branch := plain r.branch
  basePath := plain r.basePath
  app := plain r.appUuid

end HostPlan.Config

namespace HostPlan

structure Config where
  platform : Config.Platform := {}
  repository : Option Config.RepositorySettings := none
  buildPack : Value := .null
  output : Config.Output := {}
  /-- The file that it was read from. -/
  source : Option String := none
deriving Repr, Inhabited, BEq

end HostPlan
