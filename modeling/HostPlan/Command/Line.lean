import HostPlan.Command.Help
/-!
The command line of the program: its commands, what may be said about each of them, and what a given
line asks for.
-/
namespace HostPlan.Command

def programName : String := "aspire2coolify"

def version : String := "aspire2coolify v0.1.0"

def helpFlag : Flag := ⟨["-h", "--help"], .help, "show this help message and exit"⟩

def outputFlag (help : String) : Flag := ⟨["-o", "--output"], .value "OUTPUT" [], help⟩

def configFlag : Flag := ⟨["-c", "--config"], .value "CONFIG" [], "Config file path"⟩

def targetFlags : List Flag :=
  [⟨["--project-id"], .value "PROJECT_ID" [],
      "Coolify project UUID (created from --project-name when missing)"⟩,
   ⟨["--project-name"], .value "PROJECT_NAME" [],
      "Name for a new project (defaults to the AppHost directory name)"⟩,
   ⟨["--server-id"], .value "SERVER_ID" [], "Coolify server UUID"⟩,
   ⟨["--environment-name"], .value "ENVIRONMENT_NAME" [],
      "Coolify environment name (e.g., production)"⟩,
   ⟨["--instant-deploy"], .switch, "Start resources right after creation"⟩,
   ⟨["--build-pack"], .value "" ["nixpacks", "dockerfile", "static", "dockercompose"],
      "Build pack for repository-sourced applications"⟩]

inductive Name where
  | parse
  | generate
  | deploy
  | init
deriving DecidableEq, Repr

namespace Name

def all : List Name := [.parse, .generate, .deploy, .init]

def text : Name → String
  | .parse => "parse"
  | .generate => "generate"
  | .deploy => "deploy"
  | .init => "init"

def help : Name → String
  | .parse => "Parse a Program.cs and display the extracted model"
  | .generate => "Generate Coolify API calls from a Program.cs"
  | .deploy => "Deploy a Program.cs to Coolify through the API"
  | .init => "Create an aspire2coolify.yaml config file"

def ofText? (s : String) : Option Name := all.find? fun n => n.text == s

def flags : Name → List Flag
  | .parse =>
    [outputFlag "Write the JSON model to this file",
     ⟨["--compact"], .switch, "Emit single-line JSON"⟩]
  | .generate =>
    [outputFlag "Write the output to this file", configFlag,
     ⟨["--no-comments"], .switch, "Exclude comments from output"⟩,
     ⟨["--format"], .value "" ["shell", "json", "yaml"], "Output format (default: shell)"⟩] ++
    targetFlags
  | .deploy =>
    [configFlag,
     ⟨["--dry-run"], .switch, "Show what would be created without calling the API"⟩,
     ⟨["--api-url"], .value "API_URL" [], "Coolify API URL (or COOLIFY_API_URL)"⟩,
     ⟨["--token"], .value "TOKEN" [], "Coolify API token (or COOLIFY_TOKEN)"⟩,
     ⟨["--skip-existing"], .switch, "Skip resources that already exist"⟩] ++ targetFlags
  | .init => [⟨["-f", "--force"], .switch, "Overwrite an existing config file"⟩]

def usage (n : Name) : Usage where
  program := programName ++ " " ++ n.text
  flags := helpFlag :: n.flags
  wantsFile := if n = .init then none else some "file"

def fileEntry : Entry := ⟨2, "file", "Path to the AppHost Program.cs"⟩

def usageLine (n : Name) : String :=
  usageText n.usage.program (n.usage.flags.map Flag.inUsage) n.usage.wantsFile.toList

def helpPage (n : Name) : String :=
  helpText n.usageLine ""
    [("positional arguments", n.usage.wantsFile.toList.map fun _ => fileEntry),
     ("options", n.usage.flags.map Flag.entry)]

end Name

/-- What may be said before the name of a command. -/
def mainUsage : Usage where
  program := programName
  flags :=
    [helpFlag, ⟨["--version"], .version, "show program's version number and exit"⟩,
     ⟨["-v", "--verbose"], .switch, "Enable debug logging"⟩]

def mainUsageLine : String :=
  usageText programName (mainUsage.flags.map Flag.inUsage) ["Command ..."]

def mainHelp : String :=
  helpText mainUsageLine
    "aspire2coolify - Convert .NET Aspire AppHost configurations to Coolify deployments"
    [("positional arguments",
        ⟨2, "Command", ""⟩ :: Name.all.map fun n => ⟨4, n.text, n.help⟩),
     ("options", mainUsage.flags.map Flag.entry)]

structure TargetArguments where
  projectId : Option String := none
  projectName : Option String := none
  serverId : Option String := none
  environmentName : Option String := none
  instantDeploy : Bool := false
  buildPack : Option String := none
deriving DecidableEq, Repr

structure ParseArguments where
  file : String
  output : Option String := none
  compact : Bool := false
deriving DecidableEq, Repr

structure GenerateArguments where
  file : String
  output : Option String := none
  config : Option String := none
  withoutComments : Bool := false
  format : Option String := none
  target : TargetArguments := {}
deriving DecidableEq, Repr

structure DeployArguments where
  file : String
  config : Option String := none
  dryRun : Bool := false
  apiUrl : Option String := none
  token : Option String := none
  skipExisting : Bool := false
  target : TargetArguments := {}
deriving DecidableEq, Repr

inductive Request where
  | parse (a : ParseArguments)
  | generate (a : GenerateArguments)
  | deploy (a : DeployArguments)
  | init (force : Bool)
deriving DecidableEq, Repr

namespace Request

def targetOf (g : Given) : TargetArguments where
  projectId := g.value? "--project-id"
  projectName := g.value? "--project-name"
  serverId := g.value? "--server-id"
  environmentName := g.value? "--environment-name"
  instantDeploy := g.has "--instant-deploy"
  buildPack := g.value? "--build-pack"

def ofGiven (n : Name) (g : Given) : Request :=
  let file := g.file.getD ""
  match n with
  | .parse => .parse { file, output := g.value? "--output", compact := g.has "--compact" }
  | .generate => .generate {
      file
      output := g.value? "--output"
      config := g.value? "--config"
      withoutComments := g.has "--no-comments"
      format := g.value? "--format"
      target := targetOf g }
  | .deploy => .deploy {
      file
      config := g.value? "--config"
      dryRun := g.has "--dry-run"
      apiUrl := g.value? "--api-url"
      token := g.value? "--token"
      skipExisting := g.has "--skip-existing"
      target := targetOf g }
  | .init => .init (g.has "--force")

end Request

/-- A command line that is followed: whether it asks for all notes, and what it wants done. -/
structure Invocation where
  verbose : Bool
  request : Option Request
deriving DecidableEq, Repr

/-- A command line that is not followed, and the command that it names. -/
structure Stop where
  command : Option Name
  ending : Ending
deriving DecidableEq, Repr

/-- The words in front of the first argument, and the texts from there on. -/
def beforeCommand : List (String × Word) → List Word × List String
  | [] => ([], [])
  | (s, .argument t) :: r => ([], (s, Word.argument t) :: r |>.map Prod.fst)
  | (s, .separator) :: r =>
    if r.isEmpty then ([.separator], []) else ([], s :: r.map Prod.fst)
  | (_, w) :: r =>
    let (ws, line) := beforeCommand r
    (w :: ws, line)

def Invocation.ofGiven (main : Given) (request : Option Request) (rest : List String) :
    Except Stop Invocation :=
  match main.rest ++ rest with
  | [] => .ok ⟨main.has "--verbose", request⟩
  | extra =>
    .error ⟨none, .wrong ("unrecognized arguments: " ++ Text.joined " " extra)⟩

def Invocation.ofLine (line : List String) : Except Stop Invocation := do
  let words ← (mainUsage.words line).mapError (Stop.mk none)
  let (ws, line) := beforeCommand words
  let main ← (mainUsage.readWords ws {}).mapError (Stop.mk none)
  match line with
  | [] => Invocation.ofGiven main none []
  | name :: line =>
    match Name.ofText? name with
    | none =>
      throw ⟨none, .wrong ("argument Command: " ++ invalidChoice name (Name.all.map Name.text))⟩
    | some n =>
      let given ← (n.usage.read line).mapError (Stop.mk (some n))
      Invocation.ofGiven main (some (.ofGiven n given)) given.rest

end HostPlan.Command
