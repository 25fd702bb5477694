import HostPlan.Data.Value
/-!
JSON text. One printer serves every layout: on one line or indented, tight or spaced, with
characters beyond ASCII written as they are or as escapes in units of sixteen bits.
-/
namespace HostPlan.Json

structure Layout where
  /-- Characters beyond printable ASCII are escaped. -/
  ascii : Bool
  /-- Between two items on one line. -/
  comma : List Char
  colon : List Char
  /-- Spaces for each level, when every item has a line of its own. -/
  indent : Option Nat

def spaced : Layout := ⟨true, [',', ' '], [':', ' '], none⟩
def indented : Layout := ⟨true, [','], [':', ' '], some 2⟩
def tight : Layout := ⟨false, [','], [':'], none⟩

def hexDigit (n : Nat) : Char := "0123456789abcdef".toList.getD n '0'

/-- A unit of sixteen bits as an escape. -/
def unitEscape (n : Nat) : List Char :=
  ['\\', 'u', hexDigit (n / 4096 % 16), hexDigit (n / 256 % 16), hexDigit (n / 16 % 16),
    hexDigit (n % 16)]

/-- A character as one escape, or as a surrogate pair. -/
def charEscape (c : Char) : List Char :=
  let n := c.toNat
  if n < 0x10000 then unitEscape n
  else unitEscape (0xD800 + (n - 0x10000) / 0x400) ++ unitEscape (0xDC00 + (n - 0x10000) % 0x400)

def printChar (ascii : Bool) (c : Char) : List Char :=
  if c = '"' then ['\\', '"']
  else if c = '\\' then ['\\', '\\']
  else if c = '\n' then ['\\', 'n']
  else if c = '\r' then ['\\', 'r']
  else if c = '\t' then ['\\', 't']
  else if c = '\x08' then ['\\', 'b']
  else if c = '\x0c' then ['\\', 'f']
  else if c.toNat < 32 || (ascii && 126 < c.toNat) then charEscape c
  else [c]

def printString (ascii : Bool) (s : String) : List Char :=
  '"' :: (s.toList.flatMap (printChar ascii) ++ ['"'])

/-- The line break and the indentation of a level, if the layout has any. -/
def Layout.newline (l : Layout) (level : Nat) : List Char :=
  match l.indent with
  | none => []
  | some n => '\n' :: List.replicate (n * level) ' '

mutual

def print (l : Layout) (level : Nat) : Value → List Char
  | .null => ['n', 'u', 'l', 'l']
  | .flag true => ['t', 'r', 'u', 'e']
  | .flag false => ['f', 'a', 'l', 's', 'e']
  | .number i => Text.decimalInt i
  | .real r => r.toList
  | .text s => printString l.ascii s
  | .list [] => ['[', ']']
  | .list (v :: vs) =>
    '[' :: (l.newline (level + 1) ++ print l (level + 1) v ++ printItems l (level + 1) vs ++
      l.newline level ++ [']'])
  | .record [] => ['{', '}']
  | .record ((k, v) :: fs) =>
    '{' :: (l.newline (level + 1) ++ printString l.ascii k ++ l.colon ++ print l (level + 1) v ++
      printFields l (level + 1) fs ++ l.newline level ++ ['}'])

/-- Items behind the first one. -/
def printItems (l : Layout) (level : Nat) : List Value → List Char
  | [] => []
  | v :: vs => l.comma ++ l.newline level ++ print l level v ++ printItems l level vs

def printFields (l : Layout) (level : Nat) : List (String × Value) → List Char
  | [] => []
  | (k, v) :: fs =>
    l.comma ++ l.newline level ++ printString l.ascii k ++ l.colon ++ print l level v ++
      printFields l level fs

end

def render (l : Layout) (v : Value) : String := String.ofList (print l 0 v)

end HostPlan.Json
