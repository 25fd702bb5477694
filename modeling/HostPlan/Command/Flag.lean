import HostPlan.Data.Display
import HostPlan.Text.DecimalDigit
import HostPlan.Text.Search
/-!
Flags on a command line. A flag has a long name and perhaps a short one; a long name may be cut
short as long as it stays the only one that begins so, and short flags may be written together. The
value of a flag stands behind an equals sign or in the next word. Behind a double dash no word is a
flag.
-/
namespace HostPlan.Command

inductive Kind where
  | help
  | version
  | switch
  | value (placeholder : String) (choices : List String)
deriving DecidableEq, Repr

structure Flag where
  names : List String
  kind : Kind
  help : String
deriving DecidableEq, Repr

/-- What may stand on a command line behind the name of a program or of a command. -/
structure Usage where
  program : String
  flags : List Flag
  /-- The path of a program file is to be given. -/
  wantsFile : Option String := none

/-- Why a command line is not followed. -/
inductive Ending where
  | help
  | version
  | wrong (message : String)
deriving DecidableEq, Repr

/-- What stands behind the name of a flag in the same word, with or without an equals sign. -/
structure Attachment where
  assigned : Bool
  text : String
deriving DecidableEq, Repr

inductive Word where
  | argument (s : String)
  | separator
  | flag (f : Flag) (name : String) (attached : Option Attachment)
  | unknown (s : String)
deriving DecidableEq, Repr

def quoted (s : String) : String := String.ofList (Value.quotedText s.toList)

namespace Flag

def label (f : Flag) : String := Text.joined "/" f.names

def wrong (f : Flag) (message : String) : Ending :=
  .wrong ("argument " ++ f.label ++ ": " ++ message)

end Flag

/-- What is said about a word that is none of some choices. -/
def invalidChoice (s : String) (choices : List String) : String :=
  "invalid choice: " ++ quoted s ++ " (choose from " ++ Text.joined ", " (choices.map quoted) ++ ")"

namespace Usage

def names (u : Usage) : List (String × Flag) :=
  u.flags.flatMap fun f => f.names.map fun n => (n, f)

def isNegativeNumber (s : List Char) : Bool :=
  match s with
  | '-' :: r =>
    match r.dropWhile Text.isDecimalDigit with
    | [] => !r.isEmpty
    | '.' :: t => !t.isEmpty && t.all Text.isDecimalDigit
    | _ => false
  | _ => false

/-- The parts of a word in front of its equals sign and behind it. -/
def atEquals (s : List Char) : List Char × Option Attachment :=
  match s.dropWhile (· != '=') with
  | [] => (s, none)
  | _ :: v => (s.takeWhile (· != '='), some ⟨true, String.ofList v⟩)

/-- The flags that a word may mean, with what is attached to their names. -/
def candidates (u : Usage) (s : List Char) : List (String × Flag × Option Attachment) :=
  match s with
  | '-' :: '-' :: _ =>
    let (start, attached) := atEquals s
    (u.names.filter fun n => start.isPrefixOf n.1.toList).map fun (n, f) => (n, f, attached)
  | '-' :: c :: r =>
    (u.names.filter fun n => n.1.toList == ['-', c]).map fun (n, f) =>
      (n, f, some ⟨false, String.ofList r⟩)
  | _ => []

/-- What a word is that does not stand behind a double dash. -/
def wordOf (u : Usage) (s : String) : Except Ending Word :=
  let cs := s.toList
  let (start, attached) := atEquals cs
  if cs.head? ≠ some '-' then .ok (.argument s)
  else
    match u.names.lookup s, u.names.lookup (String.ofList start) with
    | some f, _ => .ok (.flag f s none)
    | none, some f =>
      if cs.length = 1 then .ok (.argument s)
      else .ok (.flag f (String.ofList start) attached)
    | none, none =>
      if cs.length = 1 then .ok (.argument s)
      else
        match u.candidates cs with
        | [(n, f, attached)] => .ok (.flag f n attached)
        | [] =>
          if isNegativeNumber cs || cs.contains ' ' then .ok (.argument s) else .ok (.unknown s)
        | several =>
          .error (.wrong ("ambiguous option: " ++ s ++ " could match " ++
            Text.joined ", " (several.map Prod.fst)))

/-- The words of a command line, each with its text. -/
def words (u : Usage) : List String → Except Ending (List (String × Word))
  | [] => .ok []
  | s :: r =>
    if s = "--" then .ok ((s, .separator) :: r.map fun s => (s, .argument s))
    else do
      let w ← u.wordOf s
      pure ((s, w) :: (← u.words r))

end Usage

def takesValue (f : Flag) : Bool :=
  match f.kind with
  | .value _ _ => true
  | _ => false

def ignored (f : Flag) (s : List Char) : Ending :=
  f.wrong ("ignored explicit argument " ++ quoted (String.ofList s))

/-- How a word of flags ends: with a flag, and its value if that is attached, or with characters
that name none. -/
inductive Tail where
  | flag (f : Flag) (value : Option String)
  | unknown (s : String)
deriving DecidableEq, Repr

/-- Short flags that are written together. What stands behind a flag is its value, if it takes one,
and otherwise the next flag. -/
def Usage.unpack (u : Usage) (f : Flag) (isShort assigned : Bool) :
    List Char → Except Ending (List Flag × Tail)
  | [] => if takesValue f then .ok ([], .flag f (some "")) else .error (ignored f [])
  | c :: r =>
    if takesValue f then .ok ([], .flag f (some (String.ofList (c :: r))))
    else if !isShort || assigned || c == '-' then .error (ignored f (c :: r))
    else
      match u.names.lookup (String.ofList ['-', c]), r with
      | none, r => .ok ([f], .unknown (String.ofList ('-' :: c :: r)))
      | some g, [] => .ok ([f], .flag g none)
      | some g, '=' :: v => (u.unpack g true true v).map fun p => (f :: p.1, p.2)
      | some g, d :: v => (u.unpack g true false (d :: v)).map fun p => (f :: p.1, p.2)

structure Given where
  file : Option String := none
  /-- The flags in order, each under its long name. -/
  flags : List (String × String) := []
  /-- Words that have no place. -/
  rest : List String := []
deriving Repr

namespace Given

def longName (f : Flag) : String := f.names.getLastD ""

def set (f : Flag) (value : String) (g : Given) : Except Ending Given :=
  match f.kind with
  | .help => .error .help
  | .version => .error .version
  | .switch => .ok { g with flags := g.flags ++ [(longName f, "")] }
  | .value _ choices =>
    if choices.isEmpty ∨ value ∈ choices then
      .ok { g with flags := g.flags ++ [(longName f, value)] }
    else .error (f.wrong (invalidChoice value choices))

/-- The value of a flag; of two values the last one counts. -/
def value? (g : Given) (name : String) : Option String := g.flags.reverse.lookup name

def has (g : Given) (name : String) : Bool := (g.value? name).isSome

end Given

namespace Usage

/-- The value of the last flag of a word. A value that is not attached is the next word; the Boolean
says that it is. -/
def lastValue (f : Flag) (attached : Option String) (next : Option Word) :
    Except Ending (String × Bool) :=
  match attached, takesValue f, next with
  | some v, _, _ => .ok (v, false)
  | none, false, _ => .ok ("", false)
  | none, true, some (.argument v) => .ok (v, true)
  | none, true, _ => .error (f.wrong "expected one argument")

/-- A word of flags is given. The Boolean says that the next word belongs to it. -/
def give (u : Usage) (f : Flag) (name : String) (attached : Option Attachment) (next : Option Word)
    (g : Given) : Except Ending (Given × Bool) := do
  let (switches, tail) ←
    match attached with
    | some a => u.unpack f (name.length == 2) a.assigned a.text.toList
    | none => pure ([], .flag f none)
  match tail with
  | .unknown s =>
    let g ← switches.foldlM (fun g f => g.set f "") g
    pure ({ g with rest := g.rest ++ [s] }, false)
  | .flag last value =>
    let (value, taken) ← lastValue last value next
    let g ← switches.foldlM (fun g f => g.set f "") g
    pure (← g.set last value, taken)

/-- An argument is given. The first one is the file, if one is wanted. -/
def place (u : Usage) (s : String) (g : Given) : Given :=
  if u.wantsFile.isSome && g.file.isNone then { g with file := some s }
  else { g with rest := g.rest ++ [s] }

/-- Reads words one by one. A double dash beside the file goes unseen. -/
def readWords (u : Usage) : List Word → Given → Except Ending Given
  | [], g => .ok g
  | .unknown s :: r, g => u.readWords r { g with rest := g.rest ++ [s] }
  | .flag f name attached :: r, g =>
    match u.give f name attached r.head? g with
    | .error e => .error e
    | .ok (g, true) => u.readWords r.tail g
    | .ok (g, false) => u.readWords r g
  | .argument s :: r, g =>
    if u.wantsFile.isSome && g.file.isNone && r.head? == some .separator then
      u.readWords r.tail (u.place s g)
    else u.readWords r (u.place s g)
  | .separator :: r, g =>
    if u.wantsFile.isSome && g.file.isNone && !r.isEmpty then u.readWords r g
    else u.readWords r { g with rest := g.rest ++ ["--"] }
termination_by ws => ws.length
decreasing_by
  all_goals
    simp only [List.length_cons, List.length_tail]
    omega

/-- What a command line gives, if it gives all that is wanted. -/
def read (u : Usage) (line : List String) : Except Ending Given := do
  let ws ← u.words line
  let g ← u.readWords (ws.map Prod.snd) {}
  match u.wantsFile, g.file with
  | some name, none => throw (.wrong ("the following arguments are required: " ++ name))
  | _, _ => pure g

end Usage
end HostPlan.Command
