import HostPlan.Config.Basic
import HostPlan.Config.Key
import HostPlan.Log
/-!
From written data to a configuration. Unknown keys are passed over, and a null is as good as no
entry at all. A section that is no mapping and an unknown format are refused.
-/
namespace HostPlan.Config

def kindName : Value → String
  | .null => "NoneType"
  | .flag _ => "bool"
  | .number _ => "int"
  | .real _ => "float"
  | .text _ => "str"
  | .list _ => "list"
  | .record _ => "dict"

def byName (fields : List (String × Value)) : Entries String Value :=
  Entries.ofList (fields.map fun f => (keyName f.1, f.2))

/-- The fields of written data; data that says nothing has none. -/
def fieldsOf (data : Value) : Entries String Value :=
  match data with
  | .record fields => byName fields
  | _ => []

def section? (data : Entries String Value) (name : String) :
    Except Failure (Entries String Value) :=
  match Entries.get? name data with
  | none | some .null => .ok []
  | some (.record fields) => .ok (byName fields)
  | some v => .error (.refused (.badSection name (kindName v)))

/-- The value under a name, unless it is null. -/
def known (fields : Entries String Value) (name : String) (default : Value) : Value :=
  match Entries.get? name fields with
  | none | some .null => default
  | some v => v

def Platform.ofFields (fields : Entries String Value) : Platform where
  apiUrl := known fields "api_url" .null
  token := known fields "token" .null
  projectId := known fields "project_id" .null
  projectName := known fields "project_name" .null
  serverId := known fields "server_id" .null
  environmentName := known fields "environment_name" .null
  skipExisting := known fields "skip_existing" (.flag false)
  instantDeploy := known fields "instant_deploy" .null

def Output.ofFields (fields : Entries String Value) : Output where
  includeComments := known fields "include_comments" (.flag true)
  format := known fields "format" (.text "shell")

/-- The repository of a section that names one. -/
def RepositorySettings.ofFields? (fields : Entries String Value) : Option RepositorySettings :=
  let repository := known fields "repository" .null
  if repository.isFilled then
    some {
      repository
      branch := known fields "branch" (.text "main")
      basePath := known fields "base_path" .null
      appUuid := known fields "app_uuid" .null }
  else none

def isFormat (v : Value) : Bool := formats.any fun f => v == .text f

def ofData (data : Value) (source : Option String := none) : Except Failure Config := do
  let data := fieldsOf data
  let platform ← section? data "coolify"
  let defaults ← section? data "defaults"
  let output ← section? data "output"
  let repository ← section? data "github"
  let output := Output.ofFields output
  if isFormat output.format then
    pure {
      platform := .ofFields platform
      repository := RepositorySettings.ofFields? repository
      buildPack := known defaults "build_pack" .null
      output
      source }
  else if output.format.isSpellable then throw (.refused (.badFormat output.format))
  else throw .unspellable

/-- The sections in the order in which they are read: what reads them, and the names that it knows.
-/
def sections : List (String × String × List String) :=
  [("coolify", "CoolifySettings",
      ["api_url", "token", "project_id", "project_name", "server_id", "environment_name",
        "skip_existing", "instant_deploy"]),
   ("defaults", "DefaultsSettings", ["build_pack"]),
   ("output", "OutputSettings", ["include_comments", "format"]),
   ("github", "RepositoryConfig", ["repository", "branch", "base_path", "app_uuid"])]

def sectionNotes (name reader : String) (names : List String) (fields : Entries String Value) :
    List Note :=
  if name = "github" ∧ !(known fields "repository" .null).isFilled then
    if fields.isEmpty then []
    else [⟨.debug, "config", "github section without a repository ignored"⟩]
  else
    (fields.filter fun f => !names.contains f.1).map fun f =>
      ⟨.debug, "config", "Ignoring unknown config key '" ++ f.1 ++ "' for " ++ reader⟩

/-- What is noted about the sections, up to the first one that is refused. -/
def notesOf (data : Entries String Value) : List (String × String × List String) → List Note
  | [] => []
  | (name, reader, names) :: r =>
    match section? data name with
    | .ok fields => sectionNotes name reader names fields ++ notesOf data r
    | .error _ => []

def notes (data : Value) : List Note := notesOf (fieldsOf data) sections

end HostPlan.Config
