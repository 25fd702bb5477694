import HostPlan.Data.Json.Printer
import HostPlan.Data.Yaml.Plain
/-!
Text as a scalar of YAML. A text is written as it stands when it would be read back as that text, in
single quotes when nothing in it needs an escape, and in double quotes otherwise.
-/
namespace HostPlan.Yaml

def isBreak (c : Char) : Bool :=
  c == '\n' || c == '\x85' || c == '\u2028' || c == '\u2029'

/-- A blank, a line break or the end of a text. -/
def isGap : Option Char → Bool
  | none => true
  | some c => isBreak c || c == ' ' || c == '\t' || c == '\r' || c == '\x00'

/-- Characters that are written as they are in a quoted scalar. -/
def isPrintable (c : Char) : Bool :=
  let n := c.toNat
  (decide (0x20 ≤ n) && decide (n ≤ 0x7E)) ||
    (decide (0xA0 ≤ n) && n != 0xFEFF && n != 0xFFFE && n != 0xFFFF)

/-- Characters that only an escape can write. -/
def isSpecial (c : Char) : Bool := !(c == '\n' || c == '\x85' || isPrintable c)

/-- The first characters that begin something else than a plain scalar. -/
def indicators : List Char := "#,[]{}&*!|>'\"%@`".toList

def startsIndicator (s : List Char) : Bool :=
  "---".toList.isPrefixOf s || "...".toList.isPrefixOf s ||
    match s with
    | c :: r =>
      indicators.contains c || ((c == '?' || c == ':' || c == '-') && isGap r.head?)
    | [] => false

/-- A colon before a gap, or a number sign behind one; the first argument is the character before.
-/
def holdsIndicator (before : Char) : List Char → Bool
  | [] => false
  | c :: r =>
    (c == ':' && isGap r.head?) || (c == '#' && isGap (some before)) || holdsIndicator c r

def isEdge (c : Option Char) : Bool :=
  match c with
  | none => false
  | some c => c == ' ' || isBreak c

/-- The text may stand without quotes and is read back as a text. -/
def isPlain (s : List Char) : Bool :=
  Meaning.of s == .text && !s.any isBreak && !s.any isSpecial && !isEdge s.head? &&
    !isEdge s.getLast? && !startsIndicator s &&
    match s with
    | c :: r => !holdsIndicator c r
    | [] => true

/-- A space beside a line break, which single quotes would lose. -/
def hasSpaceAtBreak : List Char → Bool
  | c :: d :: r => (c == ' ' && isBreak d) || (isBreak c && d == ' ') || hasSpaceAtBreak (d :: r)
  | _ => false

def shortEscapes : List (Char × Char) :=
  [('\x00', '0'), ('\x07', 'a'), ('\x08', 'b'), ('\t', 't'), ('\n', 'n'), ('\x0b', 'v'),
   ('\x0c', 'f'), ('\r', 'r'), ('\x1b', 'e'), ('"', '"'), ('\\', '\\'), ('\x85', 'N'),
   ('\u2028', 'L'), ('\u2029', 'P')]

def upperHex (places n : Nat) : List Char :=
  let digits := (Nat.toDigits 16 n).map Char.toUpper
  List.replicate (places - digits.length) '0' ++ digits

def escapeChar (c : Char) : List Char :=
  match shortEscapes.lookup c with
  | some e => ['\\', e]
  | none =>
    if isPrintable c then [c]
    else if c.toNat ≤ 0xFF then '\\' :: 'x' :: upperHex 2 c.toNat
    else if c.toNat ≤ 0xFFFF then '\\' :: 'u' :: upperHex 4 c.toNat
    else '\\' :: 'U' :: upperHex 8 c.toNat

def doubleQuoted (s : List Char) : List Char := '"' :: (s.flatMap escapeChar ++ ['"'])

/-- The text in single quotes. A line of it goes on at the given column. -/
def singleQuotedRest (column : Nat) : List Char → List Char
  | [] => ['\'']
  | c :: r =>
    if c = '\'' then '\'' :: '\'' :: singleQuotedRest column r
    else if isBreak c ∧ !(r.head?.any isBreak) then
      c :: (List.replicate column ' ' ++ singleQuotedRest column r)
    else c :: singleQuotedRest column r

def singleQuoted (column : Nat) (s : List Char) : List Char := '\'' :: singleQuotedRest column s

/-- A text as a scalar whose later lines, if there are any, stand at the given column. -/
def printText (column : Nat) (s : List Char) : List Char :=
  if isPlain s then s
  else if s.contains '\'' || s.contains '\n' || s.any isSpecial || hasSpaceAtBreak s then
    doubleQuoted s
  else singleQuoted column s

/-- The longest key that is written on the line of its value. -/
def maxSimpleKey : Nat := 122

def isSimpleKey (s : List Char) : Bool := decide (s.length ≤ maxSimpleKey) && !s.any isBreak

end HostPlan.Yaml
