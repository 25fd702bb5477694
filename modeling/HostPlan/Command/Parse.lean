import HostPlan.Command.Talk
import HostPlan.Plan.Export
/-!
The command that shows the model of a program.
-/
namespace HostPlan.Command

def parse (s : Session) (args : ParseArguments) : Talk Exit := do
  match ← programFile? s args.file with
  | none => pure (.code 1)
  | some path =>
    report (Terminal.printedMarkup ("Parsing: " ++ path))
    match ← readProgram s path with
    | .error e => pure (.broken (.oversized e))
    | .ok a =>
      messages "Errors" (problems a) (findings a)
      match ← deliver (a.model.exported args.compact .json) "Model" args.output with
      | some exit => pure exit
      | none =>
        display (Report.modelTable a.model).printed
        pure (.code 0)

def init (s : Session) (force : Bool) : Talk Exit := do
  let path := Path.absolute s.directory Config.defaultName
  let there ← ask (.isThere path)
  if there && !force then
    report (Terminal.printedMarkup "Config file already exists. Use --force to overwrite.")
    pure (.code 1)
  else
    match ← ask (.write path Config.template) with
    | .ok _ =>
      display (Terminal.printedMarkup ("Created: " ++ path))
      pure (.code 0)
    | .error fault => pure (.broken (.unwritten path fault))

end HostPlan.Command
