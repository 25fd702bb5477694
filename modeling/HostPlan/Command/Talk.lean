import HostPlan.Command.Line
import HostPlan.Config.File
import HostPlan.Credential
import HostPlan.Declaration.Trace
import HostPlan.Dialogue
import HostPlan.Report
import HostPlan.Remote.Request
import HostPlan.Text.Path
/-!
What a command asks of the world around it: to show something, to read or write a file, to look up
a variable, to ask the user, to send a request. All effects of a command are questions in its
dialogue.
-/
namespace HostPlan.Command

inductive Query where
  | show (text : String)
  /-- Shown apart from the result of the command. -/
  | report (text : String)
  | isFile (path : String)
  | isThere (path : String)
  | read (path : String)
  | write (path text : String)
  | environment (name : String)
  /-- A question to the user, if there is one. -/
  | prompt (c : Credential)
  | request (r : Remote.Request)

abbrev Response : Query → Type
  | .show _ => Unit
  | .report _ => Unit
  | .isFile _ => Bool
  | .isThere _ => Bool
  | .read _ => File.Contents
  | .write _ _ => Except File.Fault Unit
  | .environment _ => Option String
  | .prompt _ => Option String
  | .request _ => Remote.Outcome

abbrev Talk := Dialogue Query Response

/-- A failure that no command recovers from. -/
inductive Breakdown where
  | oversized (e : Declaration.OversizedNumeral)
  /-- The configuration is no text. -/
  | undecodable
  /-- A number of the configuration is too long for a message. -/
  | unspellable
  | unwritten (path : String) (fault : File.Fault)
deriving DecidableEq, Repr

def Breakdown.message : Breakdown → String
  | .oversized e => e.message
  | .undecodable => "the config file is not valid UTF-8"
  | .unspellable =>
    "Exceeds the limit (" ++ String.ofList (Text.decimal Value.maxDigits) ++
      " digits) for integer string conversion; " ++
      "use sys.set_int_max_str_digits() to increase the limit"
  | .unwritten path fault => fault.reason path

inductive Exit where
  | code (n : Nat)
  /-- The command line was not followed, or asked for no more than help. -/
  | stopped (n : Nat)
  | broken (b : Breakdown)
deriving DecidableEq, Repr

/-- Where a command is run, and whether all its notes are wanted. -/
structure Session where
  directory : String
  verbose : Bool
deriving DecidableEq, Repr

def ask (q : Query) : Talk (Response q) := Dialogue.question q

def display (text : String) : Talk Unit := ask (.show text)
def report (text : String) : Talk Unit := ask (.report text)

/-- Notes are reported line by line. -/
def note (s : Session) (n : Note) : Talk Unit :=
  if n.isShown s.verbose then report (n.line ++ "\n") else pure ()

def noteAll (s : Session) : List Note → Talk Unit
  | [] => pure ()
  | n :: r => do
    note s n
    noteAll s r

def programFile? (s : Session) (file : String) : Talk (Option String) := do
  let path := Path.absolute s.directory file
  if ← ask (.isFile path) then pure (some path)
  else
    report (Terminal.printedMarkup ("[bold red]Error:[/bold red] File not found: " ++ path))
    pure none

def firstFile? : List String → Talk (Option String)
  | [] => pure none
  | path :: r => do
    if ← ask (.isFile path) then pure (some path) else firstFile? r

def readConfig (s : Session) (path : String) : Talk (Except Config.Failure Config) := do
  let contents ← ask (.read path)
  noteAll s (Config.fileNotes path contents)
  pure (Config.ofFile path contents)

/-- The configuration of a run: from the file that is named, or from the one that is found. -/
def config (s : Session) (named : Option String) : Talk (Except Config.Failure Config) :=
  match named with
  | some path => if path = "" then found else readConfig s (Path.tidy path)
  | none => found
where
  found : Talk (Except Config.Failure Config) := do
    match ← firstFile? (Config.searchPlaces.map (Path.absolute s.directory)) with
    | some path => readConfig s path
    | none => pure (.ok {})

def withoutConfig : Config.Failure → Talk Exit
  | .refused p => do
    report (Terminal.printedMarkup ("[bold red]Config error:[/bold red] " ++ p.message))
    pure (.code 1)
  | .undecodable => pure (.broken .undecodable)
  | .unspellable => pure (.broken .unspellable)

def readProgram (s : Session) (path : String) : Talk (Declaration.Reading Assembly) := do
  let unreadable := fun (reason : String) => do
    note s ⟨.error, "pipeline", "Cannot read " ++ path ++ ": " ++ reason⟩
    pure (.ok { problems := [.unreadable path reason] })
  match ← ask (.read path) with
  | .error fault => unreadable (fault.reason path)
  | .ok bytes =>
    match Text.fileText? bytes with
    | none => unreadable "the file is not valid UTF-8"
    | some source =>
      match Declaration.readProgram source with
      | .error e => pure (.error e)
      | .ok a =>
        noteAll s (Declaration.notes source a)
        pure (.ok a)

def problems (a : Assembly) : List String := a.problems.map Problem.message

def findings (a : Assembly) : List String := a.findings.map Finding.message

def messages (title : String) (errors warnings : List String) : Talk Unit :=
  let text := Report.messages title errors warnings
  if text = "" then pure () else report text

def trimLines (s : String) : String :=
  String.ofList (s.toList.reverse.dropWhile (· == '\n')).reverse

/-- Writes a text to the file that is named, or shows it. -/
def deliver (text what : String) (output : Option String) : Talk (Option Exit) := do
  let path := output.getD ""
  if path = "" then
    display (Terminal.printedRaw (trimLines text))
    pure none
  else
    match ← ask (.write (Path.tidy path) text) with
    | .ok _ =>
      report (Terminal.printedMarkup ("[green]" ++ what ++ " saved to:[/green] " ++ path))
      pure none
    | .error fault => pure (some (.broken (.unwritten (Path.tidy path) fault)))

/-- A value from the command line, unless it is empty. -/
def given (s : Option String) : Scalar := Scalar.ofText? s

end HostPlan.Command
