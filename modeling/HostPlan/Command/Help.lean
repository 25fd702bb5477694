import HostPlan.Command.Flag
/-!
Help about a command line: how it is written, and what its words mean. What a word means stands in a
column of its own, below the word where that is too long.
-/
namespace HostPlan.Command

def helpWidth : Nat := 78

/-- The last column at which the meaning of a word may begin. -/
def maxHelpColumn : Nat := 24

structure Entry where
  indent : Nat
  word : String
  help : String
deriving Repr

namespace Flag

def placeholder? (f : Flag) : Option String :=
  match f.kind with
  | .value name [] => some name
  | .value _ choices => some ("\x7b" ++ Text.joined "," choices ++ "\x7d")
  | _ => none

def withPlaceholder (f : Flag) (name : String) : String :=
  match f.placeholder? with
  | some p => name ++ " " ++ p
  | none => name

def inUsage (f : Flag) : String := "[" ++ f.withPlaceholder (f.names.headD "") ++ "]"

def entry (f : Flag) : Entry := ⟨2, Text.joined ", " (f.names.map f.withPlaceholder), f.help⟩

end Flag

def spaces (n : Nat) : String := String.ofList (List.replicate n ' ')

/-- Lines of words with a width to keep within. The number is what the current line holds. -/
def fill (first room : Nat) : Nat → List String → List String → List (List String)
  | _, line, [] => if line.isEmpty then [] else [line]
  | used, line, w :: ws =>
    if room < used + 1 + w.length ∧ !line.isEmpty then
      line :: fill first room (first + 1 + w.length) [w] ws
    else fill first room (used + 1 + w.length) (line ++ [w]) ws

def wrapWords (room : Nat) (s : String) : List String :=
  let ws := (Text.cutAt ' ' s.toList).map String.ofList
  (fill 0 (room + 1) 0 [] ws).map (Text.joined " ")

/-- The usage of a command line, on as many lines as it takes. -/
def usageText (program : String) (flags arguments : List String) : String :=
  let opening := "usage: "
  let whole := opening ++ Text.joined " " (program :: flags ++ arguments)
  if whole.length ≤ helpWidth then whole
  else
    let indent := opening.length + program.length + 1
    let top := fill (indent - 1) helpWidth (opening.length - 1) [] (program :: flags)
    let below := fill (indent - 1) helpWidth (indent - 1) [] arguments
    opening ++ Text.joined ("\n" ++ spaces indent) ((top ++ below).map (Text.joined " "))

def helpColumn (entries : List Entry) : Nat :=
  min maxHelpColumn ((entries.map fun e => 2 + e.word.length).foldl max 0 + 2)

def entryLines (column : Nat) (e : Entry) : List String :=
  let head := spaces e.indent ++ e.word
  match wrapWords (helpWidth - column) e.help with
  | [] => [head]
  | line :: more =>
    let rest := more.map (spaces column ++ ·)
    if e.help = "" then [head]
    else if head.length + 2 ≤ column then
      (head ++ spaces (column - head.length) ++ line) :: rest
    else head :: (spaces column ++ line) :: rest

/-- The whole help: a usage, a description if there is one, and sections of entries. -/
def helpText (usage description : String) (sections : List (String × List Entry)) : String :=
  let sections := sections.filter fun s => !s.2.isEmpty
  let column := helpColumn (sections.flatMap Prod.snd)
  let parts := [usage] ++ (if description = "" then [] else [description]) ++
    sections.map fun (title, entries) =>
      Text.joined "\n" ((title ++ ":") :: entries.flatMap (entryLines column))
  Text.joined "\n\n" parts ++ "\n"

end HostPlan.Command
