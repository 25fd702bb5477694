import HostPlan.Command.Run
/-!
The program. It answers the questions of a command from the machine that it runs on. There is no
transport for requests in this build, so that each of them ends as a broken connection.
-/
namespace HostPlan.Program

def faultOf : IO.Error → File.Fault
  | .noFileOrDirectory _ _ _ => .missing
  | .inappropriateType _ _ _ => .directory
  | e => .other e.toString

def contentsOf (path : String) : IO File.Contents := do
  try
    let bytes ← IO.FS.readBinFile path
    pure (.ok bytes.toList)
  catch e => pure (.error (faultOf e))

def isThere : File.Contents → Bool
  | .error .missing => false
  | _ => true

def isFile : File.Contents → Bool
  | .error .directory => false
  | contents => isThere contents

/-- Asks the user, if the input is a terminal. -/
def typedAnswer (c : Credential) : IO (Option String) := do
  let input ← IO.getStdin
  if ← input.isTty then
    IO.print (c.prompt ++ ": ")
    (← IO.getStdout).flush
    let line ← input.getLine
    pure (some line)
  else pure none

def answerQuery : (q : Command.Query) → IO (Command.Response q)
  | .show text => IO.print text
  | .report text => IO.eprint text
  | .isFile path => do
    let contents ← contentsOf path
    pure (isFile contents)
  | .isThere path => do
    let contents ← contentsOf path
    pure (isThere contents)
  | .read path => contentsOf path
  | .write path text => do
    try
      IO.FS.writeFile path text
      pure (.ok ())
    catch e => pure (.error (faultOf e))
  | .environment name => IO.getEnv name
  | .prompt c => typedAnswer c
  | .request _ => pure (.broken "ConnectError" "no transport")

end HostPlan.Program

open HostPlan in
def main (line : List String) : IO UInt32 := do
  let directory ← IO.currentDir
  match ← (Command.run directory.toString line).run Program.answerQuery with
  | .code n => pure n.toUInt32
  | .stopped n => pure n.toUInt32
  | .broken b => do
    IO.eprintln b.message
    pure 1
