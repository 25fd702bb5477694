import HostPlan.Data.Entries
import HostPlan.Data.Scalar
import HostPlan.Text.Search
/-!
Where a plan puts its resources. An identifier that is not known yet is left to a variable of the
shell, which a script fills in when it runs.
-/
namespace HostPlan

inductive Placeholder where
  | server
  | project
  | environment
deriving DecidableEq, Repr

namespace Placeholder

def all : List Placeholder := [.server, .project, .environment]

theorem mem_all (p : Placeholder) : p ∈ all := by
  cases p <;> simp [all]

def name : Placeholder → String
  | .server => "SERVER_UUID"
  | .project => "PROJECT_UUID"
  | .environment => "ENVIRONMENT_NAME"

def text (p : Placeholder) : String := "$\x7b" ++ p.name ++ "\x7d"

end Placeholder

abbrev Payload := Entries String Scalar

structure Target where
  server : Scalar
  project : Scalar
  environment : Scalar
deriving DecidableEq, Repr

namespace Target

def payload (t : Target) : Payload :=
  [("server_uuid", t.server), ("project_uuid", t.project), ("environment_name", t.environment)]

/-- The target with a placeholder for everything that is not known. -/
def filled (t : Target) : Target where
  server := t.server.orElse (.text Placeholder.server.text)
  project := t.project.orElse (.text Placeholder.project.text)
  environment := t.environment.orElse (.text Placeholder.environment.text)

end Target

/-- The sources of the applications. An app identifier means that the repository is private. -/
structure Repository where
  location : Scalar
  branch : Scalar := .text "main"
  basePath : Scalar := .null
  app : Scalar := .null
deriving DecidableEq, Repr

end HostPlan
