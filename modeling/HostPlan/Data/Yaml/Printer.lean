import HostPlan.Data.Value
import HostPlan.Data.Yaml.Scalar
/-!
YAML text in block style. Items of a list stand two columns to the right of the key that holds the
list, and what belongs to an item two further. A field may carry a remark, which follows its value
on the line and is no part of the data.
-/
namespace HostPlan.Yaml

inductive Node where
  | leaf (v : Scalar)
  | list (items : List Node)
  | record (fields : List (String × Option String × Node))
deriving Repr, Inhabited

namespace Node

mutual

def ofValue : Value → Node
  | .null => .leaf .null
  | .flag b => .leaf (.flag b)
  | .number i => .leaf (.number i)
  | .real r => .leaf (.text r)
  | .text s => .leaf (.text s)
  | .list items => .list (ofItems items)
  | .record fields => .record (ofFields fields)

def ofItems : List Value → List Node
  | [] => []
  | v :: vs => ofValue v :: ofItems vs

def ofFields : List (String × Value) → List (String × Option String × Node)
  | [] => []
  | (k, v) :: fs => (k, none, ofValue v) :: ofFields fs

end

/-- The node with a remark on one of its fields. -/
def remark (key : String) (note : Option String) : Node → Node
  | .record fields =>
    .record (fields.map fun f => if f.1 = key then (f.1, note, f.2.2) else f)
  | node => node

end Node

def printScalar (column : Nat) : Scalar → List Char
  | .null => []
  | .flag true => "true".toList
  | .flag false => "false".toList
  | .number i => Text.decimalInt i
  | .text s => printText column s.toList

/-- A remark behind a value. It brings its own number sign along or is given one, and loses a line
break at its end. -/
def printRemark : Option String → List Char
  | none => []
  | some note =>
    let text :=
      match note.toList with
      | '#' :: r => '#' :: r
      | t => '#' :: ' ' :: t
    let text := if text.getLast? = some '\n' then text.dropLast else text
    ' ' :: ' ' :: text

def printKey (column : Nat) (key : String) : List Char :=
  if isSimpleKey key.toList then printText (column + 2) key.toList ++ [':']
  else
    '?' :: ' ' :: (printText (column + 2) key.toList ++ '\n' :: List.replicate column ' ' ++ [':'])

mutual

/-- What follows the colon or the dash in front of a node; the fields of the node stand at the first
column and the lines of a scalar go on at the second one. -/
def printBehind (fields more : Nat) (note : Option String) : Node → List Char
  | .leaf .null => printRemark note ++ ['\n']
  | .leaf v => ' ' :: (printScalar more v ++ printRemark note ++ ['\n'])
  | .list [] => " []".toList ++ printRemark note ++ ['\n']
  | .list (n :: ns) => printRemark note ++ '\n' :: printItems (fields - 2) (n :: ns)
  | .record [] => " {}".toList ++ printRemark note ++ ['\n']
  | .record (f :: fs) => printRemark note ++ '\n' :: printFields fields (f :: fs)

/-- Items of a list that belongs to a record at this column. -/
def printItems (column : Nat) : List Node → List Char
  | [] => []
  | .record ((k, note, n) :: fs) :: ns =>
    List.replicate (column + 2) ' ' ++ '-' :: ' ' :: printKey (column + 4) k ++
      printBehind (column + 6) (column + 6) note n ++ printFields (column + 4) fs ++
      printItems column ns
  | n :: ns =>
    List.replicate (column + 2) ' ' ++ '-' :: printBehind (column + 4) (column + 4) none n ++
      printItems column ns

def printFields (column : Nat) : List (String × Option String × Node) → List Char
  | [] => []
  | (k, note, n) :: fs =>
    List.replicate column ' ' ++ printKey column k ++
      printBehind (column + 2) (column + 2) note n ++ printFields column fs

end

def print : Node → List Char
  | .record (f :: fs) => printFields 0 (f :: fs)
  | .record [] => "{}\n".toList
  | .list (n :: ns) => printItems 0 (n :: ns)
  | .list [] => "[]\n".toList
  | .leaf v => printScalar 0 v ++ ['\n']

def render (n : Node) : String := String.ofList (print n)

end HostPlan.Yaml
