import HostPlan.Command.Generate
import HostPlan.Deploy.Run
/-!
The command that deploys a program. Nothing is sent before the address, the key and the server are
known and the program has been read without an error; the first request tests the connection, and a
project is created only when none is named. A dry run sends nothing at all.
-/
namespace HostPlan.Command

open Remote

def defaultEnvironment : String := "production"

/-- A credential from the first place that has it; the user is asked only in a real run. -/
def credential (c : Credential) (flag : Option String) (configured : Value) (mayAsk : Bool) :
    Talk Scalar := do
  let environment ← ask (.environment c.environmentName)
  let written := Credential.written (given flag) (given environment) (Config.plain configured)
  if written.isFilled || !mayAsk then pure (Credential.chosen written none)
  else
    let answer ← ask (.prompt c)
    pure (Credential.chosen written answer)

/-- Everything that a run needs to know about its target, as it was written. -/
structure Aim where
  project : Value
  projectName : Value
  server : Value
  environment : Value

/-- A value from the command line, or else the one from the configuration. -/
def chosen (flag : Option String) (configured : Value) : Value :=
  (Value.ofScalar (given flag)).orElse configured

def aim (s : Session) (args : DeployArguments) (c : Config) : Aim :=
  let t := args.target
  let name := projectName (Path.resolved s.directory args.file)
  { project := chosen t.projectId c.platform.projectId
    projectName := (chosen t.projectName c.platform.projectName).orElse (.text name)
    server := chosen t.serverId c.platform.serverId
    environment := (chosen t.environmentName c.platform.environmentName).orElse
      (.text defaultEnvironment) }

namespace Aim

/-- The target for a plan, which holds plain values only. -/
def target (a : Aim) : Target where
  server := Config.plain a.server
  project := Config.plain a.project
  environment := Config.plain a.environment

def fields (a : Aim) : Entries String Value :=
  [("server_uuid", a.server), ("project_uuid", a.project), ("environment_name", a.environment)]

/-- A planned payload with the target as it was written. -/
def inPayload (a : Aim) : Value → Value
  | .record fields => .record (fields.map fun f => (f.1, (Entries.get? f.1 a.fields).getD f.2))
  | v => v

def inCall (a : Aim) : Call → Call
  | .createDatabase engine payload => .createDatabase engine (a.inPayload payload)
  | .createApplication source payload => .createApplication source (a.inPayload payload)
  | .createService payload => .createService (a.inPayload payload)
  | c => c

end Aim

def settings (args : DeployArguments) (c : Config) (a : Aim) : Deploy.Settings where
  target := a.target
  instant := instant args.target c
  skipExisting := args.skipExisting || c.platform.skipExisting.isFilled
  repository := repository c
  buildPack := buildPack args.target c

def serve (s : Session) (access : Access) (a : Aim) : (q : Deploy.Query) → Talk (Deploy.Response q)
  | .say line => display (Terminal.printed line)
  | .log n => note s n
  | .call planned => do
    let c := a.inCall planned
    let outcome ← ask (.request (access.request c))
    noteAll s (Remote.notes c outcome)
    pure (.answered (outcome.answer c.path))

def conclude (summary : Deploy.Summary) : Talk Exit := do
  messages "Errors" [] summary.warnings
  display (Report.deployment summary)
  if summary.failed = 0 then
    display (Terminal.printedMarkup "\n[bold green]Deployment complete![/bold green]")
    pure (.code 0)
  else pure (.code 1)

/-- The deployment of a model that only says what it would do. -/
def rehearse (s : Session) (a : Aim) (m : Model) : Talk Exit := do
  if !a.project.isFilled then
    display (Terminal.printed
      ("\n[DRY RUN] Would create project: \"" ++ a.projectName.display ++ "\""))
  let summary ← (Deploy.rehearse m).run (serve s ⟨"", ""⟩ a)
  conclude summary

def connected (access : Access) : Talk Bool := do
  display (Terminal.printed "\nTesting API connection...")
  let outcome ← ask (.request access.probe)
  match outcome.connection with
  | .success _ =>
    display (Terminal.printed "  ✓ Connected to Coolify API")
    pure true
  | .failure error =>
    report (Terminal.printed ("  ✗ Failed to connect to Coolify API: " ++ error.display))
    pure false

/-- The identifier in the answer to the creation of a project. -/
def createdProject? : Answer → Option Value
  | .success (.record fields) =>
    let uuid := (Value.record fields).field "uuid"
    if uuid.isFilled then some uuid else none
  | _ => none

/-- The project to deploy into: the one that is named, or a new one. -/
def projectOf? (s : Session) (access : Access) (a : Aim) : Talk (Option Value) := do
  if a.project.isFilled then pure (some a.project)
  else
    let name := a.projectName.display
    display (Terminal.printed ("\nCreating project: \"" ++ name ++ "\"..."))
    let call := Call.createProject a.projectName .null
    let outcome ← ask (.request (access.request call))
    noteAll s (Remote.notes call outcome)
    let answer := outcome.answer call.path
    match createdProject? answer with
    | some uuid =>
      display (Terminal.printed
        ("  ✓ Created project \"" ++ name ++ "\" (uuid: " ++ uuid.display ++ ")"))
      pure (some uuid)
    | none =>
      let reason :=
        match answer with
        | .success _ => Value.null
        | .failure error => error
      report (Terminal.printed ("  ✗ Failed to create project: " ++ reason.display))
      pure none

def perform (s : Session) (args : DeployArguments) (c : Config) (a : Aim) (access : Access)
    (m : Model) : Talk Exit := do
  if ← connected access then
    match ← projectOf? s access a with
    | none => pure (.code 1)
    | some project =>
      let a := { a with project }
      let summary ← (Deploy.deploy (settings args c a) m).run (serve s access a)
      conclude summary
  else pure (.code 1)

/-- The deployment of a program file, once it is known where to. -/
def deployFile (s : Session) (args : DeployArguments) (c : Config) (access : Access)
    (path : String) : Talk Exit := do
  let a := aim s args c
  display (Terminal.printedMarkup ("Parsing: " ++ path))
  match ← readProgram s path with
  | .error e => pure (.broken (.oversized e))
  | .ok assembly =>
    if assembly.problems.isEmpty then
      messages "Errors" [] (findings assembly)
      display (Report.modelTable assembly.model).printed
      if args.dryRun then rehearse s a assembly.model
      else perform s args c a access assembly.model
    else
      messages "Parse Errors" (problems assembly) []
      pure (.code 1)

def deploy (s : Session) (args : DeployArguments) : Talk Exit := do
  match ← programFile? s args.file with
  | none => pure (.code 1)
  | some path =>
    match ← config s args.config with
    | .error e => withoutConfig e
    | .ok c =>
      let address ← credential .address args.apiUrl c.platform.apiUrl !args.dryRun
      let token ← credential .token args.token c.platform.token !args.dryRun
      let missing := if args.dryRun then [] else Credential.problems address token
      if !missing.isEmpty then
        messages "Configuration errors" missing []
        pure (.code 1)
      else if !args.dryRun && !(aim s args c).server.isFilled then
        report (Terminal.printedMarkup "\n[bold red]Missing required configuration:[/bold red]")
        report (Terminal.printedMarkup "  - server-id (Coolify server UUID)")
        pure (.code 1)
      else deployFile s args c ⟨address.display, token.display⟩ path

end HostPlan.Command
