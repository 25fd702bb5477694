import HostPlan.Data.Json.Printer
import HostPlan.Text.Printable
/-!
The text of a value inside a message. A text stands as it is, unless it is part of a larger value;
there it has quotes around it and escapes for what cannot be printed.
-/
namespace HostPlan.Value

open Text

def hexDigits (places n : Nat) : List Char :=
  let digits := Nat.toDigits 16 n
  List.replicate (places - digits.length) '0' ++ digits

def quotedChar (quote c : Char) : List Char :=
  let n := c.toNat
  if c = quote ∨ c = '\\' then ['\\', c]
  else if c = '\n' then ['\\', 'n']
  else if c = '\r' then ['\\', 'r']
  else if c = '\t' then ['\\', 't']
  else if isPrintable c then [c]
  else if n ≤ 0xFF then '\\' :: 'x' :: hexDigits 2 n
  else if n ≤ 0xFFFF then '\\' :: 'u' :: hexDigits 4 n
  else '\\' :: 'U' :: hexDigits 8 n

/-- A text in single quotes, or in double ones if it holds only single ones itself. -/
def quotedText (s : List Char) : List Char :=
  let quote := if s.contains '\'' && !s.contains '"' then '"' else '\''
  quote :: (s.flatMap (quotedChar quote) ++ [quote])

mutual

def inner : Value → List Char
  | .null => "None".toList
  | .flag true => "True".toList
  | .flag false => "False".toList
  | .number i => decimalInt i
  | .real r => r.toList
  | .text s => quotedText s.toList
  | .list items => '[' :: (innerItems items ++ [']'])
  | .record fields => '\x7b' :: (innerFields fields ++ ['\x7d'])

def innerItems : List Value → List Char
  | [] => []
  | [v] => inner v
  | v :: vs => inner v ++ ',' :: ' ' :: innerItems vs

def innerFields : List (String × Value) → List Char
  | [] => []
  | [(k, v)] => quotedText k.toList ++ ':' :: ' ' :: inner v
  | (k, v) :: fs => quotedText k.toList ++ ':' :: ' ' :: (inner v ++ ',' :: ' ' :: innerFields fs)

end

def display : Value → String
  | .text s => s
  | v => String.ofList (inner v)

/-- Longer numerals are not written into a message. -/
def maxDigits : Nat := 4300

mutual

/-- The value can be written out: no number in it is too long. -/
def isSpellable : Value → Bool
  | .number i => decide (i.natAbs < Nat.pow 10 maxDigits)
  | .list items => areSpellable items
  | .record fields => fieldsSpellable fields
  | _ => true

def areSpellable : List Value → Bool
  | [] => true
  | v :: vs => isSpellable v && areSpellable vs

def fieldsSpellable : List (String × Value) → Bool
  | [] => true
  | (_, v) :: fs => isSpellable v && fieldsSpellable fs

end

end HostPlan.Value
