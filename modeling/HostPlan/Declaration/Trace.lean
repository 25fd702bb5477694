import HostPlan.Declaration.Assembly
import HostPlan.Log
/-!
What is noted while a program is read: broken chains, lambdas that are left unread, chains that
cannot be read, and the findings about the model.
-/
namespace HostPlan.Declaration

open Source

def count (n : Nat) : String := String.ofList (Text.decimal n)

def debug (part text : String) : Note := ⟨.debug, part, text⟩

/-- Notes in a row, up to the first step that failed. -/
def inOrder : List (List Note × Bool) → List Note × Bool
  | [] => ([], true)
  | (notes, false) :: _ => (notes, false)
  | (notes, true) :: r =>
    let (more, ok) := inOrder r
    (notes ++ more, ok)

/-- The notes about a call, and whether it could be read. -/
def callNotes {ρ : Type} (rules : Rules ρ) : Nat → MethodCall → List Note × Bool
  | levels, c =>
    match rules c.method, levels with
    | none, _ => ([], true)
    | some (.update change), _ => ([], (change c).isOk)
    | some .replay, 0 =>
      (if c.rawArgs = "" then []
        else
          [debug "scanner" ("Lambda nesting deeper than " ++ count maxLambdaDepth ++ " ignored")],
        true)
    | some .replay, levels + 1 =>
      let run := lambdaRun c.rawArgs.toList
      let broken :=
        if run.closed then []
        else [debug "scanner" ("Unbalanced lambda body, kept " ++ count run.calls.length ++
          " call(s)")]
      let (notes, ok) := inOrder (run.calls.map (callNotes rules levels))
      (broken ++ notes, ok)

def databaseNotes (c : Chain) : List Note :=
  (inOrder (c.calls.map (callNotes databaseRules maxLambdaDepth))).1

def chainNotes (c : Chain) : List Note :=
  (if (engine? c.rootMethod).isSome then databaseNotes c else []) ++
    match resource? c with
    | .ok _ => []
    | .error e => [debug "structurer" ("Chain extraction failed: " ++ e.message)]

/-- The notes about a chain that adds a database to a server, which is read once more. -/
def childNotes (chains : List Chain) (c : Chain) : List Note :=
  if c.rootMethod = childMethod then
    match bound? chains c.base? with
    | some p => if (engine? p.rootMethod).isSome then databaseNotes p else []
    | none => []
  else []

def foundNotes : Found → List Note
  | .chain _ _ => []
  | .unclosed position _ =>
    [debug "lexer" ("Skipping unbalanced chain at offset " ++ count position)]

def summary (m : Model) : Note where
  level := .info
  part := "pipeline"
  text := "Parsed " ++ count m.databases.length ++ " database(s), " ++ count m.storage.length ++
    " storage, " ++ count m.services.length ++ " service(s), " ++ count m.applications.length ++
    " application(s)"

/-- The notes about a program text and what was read from it. -/
def notes (source : List Char) (a : Assembly) : List Note :=
  (searchSource source).flatMap foundNotes ++
    [debug "pipeline" ("Extracted " ++ count a.chains.length ++ " chain(s), skipped " ++
      count (brokenChains source).length)] ++
    a.chains.flatMap chainNotes ++ a.chains.flatMap (childNotes a.chains) ++
    (a.findings.map fun f => debug "validator" f.message) ++ [summary a.model]

end HostPlan.Declaration
