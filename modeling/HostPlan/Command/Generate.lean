import HostPlan.Command.Talk
import HostPlan.Plan.Build
import HostPlan.Plan.Export
import HostPlan.Plan.ProjectName
import HostPlan.Plan.Script
/-!
The command that writes a plan, as a script or as a document. What the command line says goes before
what the configuration says.
-/
namespace HostPlan.Command

/-- What is said about instant deployment, null if nothing is. -/
def instant (t : TargetArguments) (c : Config) : Scalar :=
  if t.instantDeploy then .flag true else Config.plain c.platform.instantDeploy

/-- The name that a project gets if it has to be created. -/
def newProjectName (s : Session) (file : String) (t : TargetArguments) (c : Config) : Scalar :=
  (given t.projectName).orElse ((Config.plain c.platform.projectName).orElse
    (.text (projectName (Path.resolved s.directory file))))

def buildPack (t : TargetArguments) (c : Config) : Scalar :=
  (given t.buildPack).orElse (Config.plain c.buildPack)

def repository (c : Config) : Option Repository :=
  c.repository.map Config.RepositorySettings.toRepository

def options (s : Session) (args : GenerateArguments) (c : Config) : Options :=
  let t := args.target
  let project := (given t.projectId).orElse (Config.plain c.platform.projectId)
  { withNotes := c.output.includeComments.isFilled && !args.withoutComments
    project
    projectName := if project.isFilled then .null else newProjectName s args.file t c
    server := (given t.serverId).orElse (Config.plain c.platform.serverId)
    environmentName := (given t.environmentName).orElse (Config.plain c.platform.environmentName)
    instant := instant t c
    repository := repository c
    buildPack := buildPack t c }

/-- The text of a plan in a format; all that is no document is a script. -/
def planText (o : Options) (os : List Operation) (format : String) : String :=
  match Format.ofName? format with
  | some f => exportOperations os f
  | none => Script.render o.withNotes os

def generate (s : Session) (args : GenerateArguments) : Talk Exit := do
  match ← programFile? s args.file with
  | none => pure (.code 1)
  | some path =>
    match ← config s args.config with
    | .error e => withoutConfig e
    | .ok c =>
      match ← readProgram s path with
      | .error e => pure (.broken (.oversized e))
      | .ok a =>
        messages "Parse Errors" (problems a) (findings a)
        let o := options s args c
        let os := a.model.operations o
        noteAll s (a.model.warnings.map fun w => ⟨.warning, "rules", w⟩)
        messages "Generation Errors" [] a.model.warnings
        let format := args.format.getD c.output.format.display
        match ← deliver (planText o os format) "Output" args.output with
        | some exit => pure exit
        | none =>
          report (Report.operationTable os).printed
          pure (.code 0)

end HostPlan.Command
