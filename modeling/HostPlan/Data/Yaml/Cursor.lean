import HostPlan.Data.Yaml.Fault
/-!
A place in a text, with what lies ahead. The end of the text reads as a null character, which no
document holds.
-/
namespace HostPlan.Yaml

structure Cursor where
  rest : List Char
  mark : Mark := {}
deriving Repr

def isSpaceOrEnd (c : Char) : Bool := c == ' ' || c == '\t' || Fault.endsLine c

namespace Cursor

def peek (s : Cursor) : Char := s.rest.headD '\x00'

def peekAt (n : Nat) (s : Cursor) : Char := s.rest.getD n '\x00'

/-- The mark behind a character, given the one after it. -/
def afterChar (m : Mark) (c : Char) (next : Option Char) : Mark :=
  if isBreak c ∨ (c = '\r' ∧ next ≠ some '\n') then ⟨m.index + 1, m.line + 1, 0⟩
  else if c = '\uFEFF' then ⟨m.index + 1, m.line, m.column⟩
  else ⟨m.index + 1, m.line, m.column + 1⟩

def next (s : Cursor) : Cursor :=
  match s.rest with
  | [] => s
  | c :: r => ⟨r, afterChar s.mark c r.head?⟩

def skip : Nat → Cursor → Cursor
  | 0, s => s
  | n + 1, s => skip n s.next

/-- The longest run of characters of a class, and the place behind it. -/
def span (p : Char → Bool) (s : Cursor) : List Char × Cursor :=
  let run := s.rest.takeWhile p
  (run, s.skip run.length)

def skipWhile (p : Char → Bool) (s : Cursor) : Cursor := (s.span p).2

def startsWith (piece : String) (s : Cursor) : Bool := piece.toList.isPrefixOf s.rest

/-- A line break at the cursor, as it counts in a scalar. -/
def lineBreak? (s : Cursor) : Option (Char × Cursor) :=
  let c := s.peek
  if c = '\r' ∧ s.peekAt 1 = '\n' then some ('\n', s.skip 2)
  else if c = '\r' ∨ c = '\n' ∨ c = '\x85' then some ('\n', s.next)
  else if c = '\u2028' ∨ c = '\u2029' then some (c, s.next)
  else none

/-- A line that ends or begins a document. -/
def atSeparator (s : Cursor) : Bool :=
  (s.startsWith "---" || s.startsWith "...") && isSpaceOrEnd (s.peekAt 3)

end Cursor
end HostPlan.Yaml
