import HostPlan.Terminal.Width
import HostPlan.Text.Blank
import HostPlan.Text.Search
/-!
Lines of a terminal. A text is broken at its line breaks and, where it does not fit, between its
words; a word that fits on no line is broken anywhere, or cut.
-/
namespace HostPlan.Terminal

open Text

/-- Controls that move the cursor. -/
def cursorControls : List Nat := [7, 8, 11, 12, 13]

/-- The text without the controls that would spoil its layout. -/
def sanitized (s : List Char) : List Char := s.filter fun c => !cursorControls.contains c.toNat

def tabWidth : Nat := 8

/-- Spaces for tabs, up to the next stop; the number is the column. -/
def expandTabs (column : Nat) : List Char → List Char
  | [] => []
  | '\t' :: r =>
    let spaces := tabWidth - column % tabWidth
    List.replicate spaces ' ' ++ expandTabs (column + spaces) r
  | c :: r => c :: expandTabs (column + charWidth c) r

/-- The lines of a text as they were written. -/
def writtenLines (s : List Char) : List (List Char) :=
  (cutAt '\n' (sanitized s)).map (expandTabs 0)

/-- The words of a line, each with the blanks behind it; the first one also has those before it. -/
def words (s : List Char) : List (List Char) :=
  match _h : s.dropWhile isBlank with
  | [] => []
  | c :: r =>
    let lead := s.takeWhile isBlank
    let word := (c :: r).takeWhile fun c => !isBlank c
    let rest := (c :: r).dropWhile fun c => !isBlank c
    (lead ++ word ++ rest.takeWhile isBlank) :: words (rest.dropWhile isBlank)
termination_by s.length
decreasing_by
  have hc : isBlank c = false := by
    have := List.head?_dropWhile_not isBlank s
    rw [_h] at this
    simpa using this
  have h₁ := (List.dropWhile_sublist (l := s) isBlank).length_le
  have h₂ := (List.dropWhile_sublist (l := r) fun c => !isBlank c).length_le
  have h₃ := (List.dropWhile_sublist (l := r.dropWhile fun c => !isBlank c) isBlank).length_le
  rw [_h] at h₁
  simp only [List.dropWhile_cons, hc, Bool.not_false, if_true, List.length_cons] at *
  omega

def trimEnd (s : List Char) : List Char := (s.reverse.dropWhile isBlank).reverse

/-- Pieces of a text that fill a width. -/
def chopped (room : Nat) : Nat → List Char → List (List Char)
  | _, [] => [[]]
  | used, c :: r =>
    if room < used + charWidth c then
      match chopped room (charWidth c) r with
      | p :: ps => [] :: (c :: p) :: ps
      | [] => [[], [c]]
    else
      match chopped room (used + charWidth c) r with
      | p :: ps => (c :: p) :: ps
      | [] => [[c]]

/-- Lines under construction: those that are full, the last one first, and the one in hand. -/
structure Filling where
  full : List (List Char) := []
  line : List Char := []
  used : Nat := 0
  /-- Nothing has been put down yet. -/
  fresh : Bool := true

namespace Filling

def put (word : List Char) (f : Filling) : Filling :=
  { f with line := f.line ++ word, used := f.used + width word, fresh := false }

/-- The piece begins a line. -/
def start (piece : List Char) (f : Filling) : Filling :=
  if f.fresh then { f with line := piece, used := width piece, fresh := false }
  else { full := f.line :: f.full, line := piece, used := width piece, fresh := false }

/-- One more word. A word that is too long for a line is broken, or else put on a line of its own.
-/
def add (fold : Bool) (room : Nat) (f : Filling) (word : List Char) : Filling :=
  let size := width (trimEnd word)
  if f.used + size ≤ room then f.put word
  else if room < size then
    if fold then (chopped room 0 word).foldl (fun f p => f.start p) f else f.start word
  else if f.used = 0 then { f with line := f.line ++ word, fresh := false }
  else f.start word

def lines (f : Filling) : List (List Char) := (f.line :: f.full).reverse

end Filling

/-- Blanks at the end of a line go as far as they stand beyond the width. -/
def trimExcess (room : Nat) (s : List Char) : List Char :=
  let blanks := (s.reverse.takeWhile isBlank).length
  s.take (s.length - min blanks (s.length - room))

def wrapLine (fold : Bool) (room : Nat) (s : List Char) : List (List Char) :=
  let parts := words s
  let lines := if parts.isEmpty then [s] else (parts.foldl (Filling.add fold room) {}).lines
  lines.map (trimExcess room)

def ellipsis : Char := '…'

/-- What of a line is shown. -/
def cut (fold : Bool) (room : Nat) (s : List Char) : List Char :=
  if width s ≤ room then s
  else if fold then crop room s
  else crop (room - 1) s ++ [ellipsis]

/-- The lines of a text on a terminal of some width. -/
def wrap (room : Nat) (s : List Char) : List (List Char) :=
  (writtenLines s).flatMap fun l => (wrapLine true room l).map (cut true room)

def columns : Nat := 200

def ended (lines : List (List Char)) : String := String.ofList (lines.flatMap fun l => l ++ ['\n'])

/-- A text as it is printed, with a line break at its end. -/
def printed (s : String) : String := ended (wrap columns s.toList)

/-- A text as it is printed when its lines must stay whole. -/
def printedRaw (s : String) : String := ended (writtenLines s.toList)

end HostPlan.Terminal
