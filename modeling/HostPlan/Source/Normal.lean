import HostPlan.Source.Literal
import HostPlan.Text.Blank
/-!
The normal form of a program text: no comments, one space for every run of blanks outside literals,
one space on each side of an arrow and of a plain assignment sign, none at the two ends. Literals
stay as they are.

An assignment sign is plain when it is no part of a comparison or of an arrow, which its two
neighbours decide. Two signs in a row keep the space that each brings along.
-/
namespace HostPlan.Source

open Text

/-- Every run of blanks as one space; the flag says that the text before ended in a blank. -/
def collapse (afterBlank : Bool) : List Char → List Char
  | [] => []
  | c :: r =>
    if isBlank c then
      if afterBlank then collapse true r else ' ' :: collapse true r
    else c :: collapse false r

/-- A character put in front of the first piece. -/
def extend (c : Char) : List (List Char) → List (List Char)
  | [] => [[c]]
  | p :: ps => (c :: p) :: ps

def cutArrows : List Char → List (List Char)
  | [] => [[]]
  | '=' :: '>' :: r => [] :: cutArrows r
  | c :: r => extend c (cutArrows r)

/-- An equals sign between these neighbours assigns. -/
def assigns (before next : Option Char) : Bool :=
  !(before == some '=' || before == some '!' || before == some '<' || before == some '>') &&
    !(next == some '=' || next == some '>')

/-- The text cut at its plain assignment signs, given the character before it. -/
def cutAssignments (before : Option Char) : List Char → List (List Char)
  | [] => [[]]
  | c :: r =>
    if c = '=' ∧ assigns before r.head? then [] :: cutAssignments (some c) r
    else extend c (cutAssignments (some c) r)

/-- Pieces behind a sign, joined by it, without blanks at the sign. -/
def joinRest (sign : List Char) : List (List Char) → List Char
  | [] => []
  | [p] => trimStart p
  | p :: r => trim p ++ sign ++ joinRest sign r

/-- Pieces joined by a sign, without blanks at the sign. -/
def join (sign : List Char) : List (List Char) → List Char
  | [] => []
  | [p] => p
  | p :: r => trimEnd p ++ sign ++ joinRest sign r

/-- The normal form of a stretch of code. -/
def normalCode (t : List Char) : List Char :=
  let arrows := join [' ', '=', '>', ' '] (cutArrows (collapse false t))
  join [' ', '=', ' '] (cutAssignments none arrows)

def Segment.normal : Segment → List Char
  | .code t => normalCode t
  | .literal t => t

/-- Line breaks written as one character. -/
def unifyBreaks : List Char → List Char
  | [] => []
  | '\r' :: '\n' :: r => '\n' :: unifyBreaks r
  | c :: r => c :: unifyBreaks r

/-- A text as a file may hold it, without byte order marks and with one kind of line break. -/
def plainText (s : List Char) : List Char :=
  unifyBreaks (s.dropWhile (· == '\uFEFF'))

def normalize (s : List Char) : List Char :=
  trim ((segments (plainText s)).flatMap Segment.normal)

end HostPlan.Source
