import HostPlan.Command.Deploy
import HostPlan.Command.Parse
/-!
A run of the program: from its command line to its end.
-/
namespace HostPlan.Command

/-- The panel that is shown when nothing is asked for. -/
def banner : String :=
  "╭── Aspire -> Coolify ──╮\n│ " ++ version ++ " │\n╰───────────────────────╯\n"

/-- What becomes of a command line that is not followed. -/
def stop (e : Stop) : Talk Exit :=
  match e.ending with
  | .help => do
    display ((e.command.map Name.helpPage).getD mainHelp)
    pure (.stopped 0)
  | .version => do
    display (version ++ "\n")
    pure (.stopped 0)
  | .wrong message => do
    let program := (e.command.map fun n => n.usage.program).getD programName
    report ((e.command.map Name.usageLine).getD mainUsageLine ++ "\n")
    report (program ++ ": error: " ++ message ++ "\n")
    pure (.stopped 2)

def follow (s : Session) : Request → Talk Exit
  | .parse a => parse s a
  | .generate a => generate s a
  | .deploy a => deploy s a
  | .init force => init s force

def run (directory : String) (line : List String) : Talk Exit := do
  if line.isEmpty then
    report banner
    display mainHelp
    pure (.code 0)
  else
    match Invocation.ofLine line with
    | .error e => stop e
    | .ok i =>
      match i.request with
      | none => do
        display mainHelp
        pure (.code 1)
      | some r => follow ⟨directory, i.verbose⟩ r

end HostPlan.Command
