/-!
String literals and comments. A program text is read one character at a time by a machine with a
handful of modes: plain code, a literal with its quote, the two kinds of comment, and the pending
characters between them. What the machine emits is the text without its comments, each character
marked as code or as part of a literal; grouping the marks gives the segments of the text.

A comment between slashes and stars leaves one space behind, a comment to the end of the line leaves
nothing, and its line break stays. Comment signs inside a literal are text, and so are quotes inside
a comment.
-/
namespace HostPlan.Source

def isQuote (c : Char) : Bool := c == '"' || c == '\''

/-- Where in the text the next character stands. -/
inductive Mode where
  | code
  /-- After a slash that may yet begin a comment. -/
  | slash
  /-- Inside a literal that the quote will close. -/
  | literal (quote : Char)
  /-- After a backslash inside a literal. -/
  | escape (quote : Char)
  | lineComment
  | blockComment
  /-- After a star inside a block comment. -/
  | star
deriving DecidableEq, Repr

/-- A character that is left of the text once comments are gone. -/
inductive Mark where
  | code (c : Char)
  /-- The quote that opens a literal. -/
  | opening (c : Char)
  /-- Any later character of a literal, its closing quote included. -/
  | inside (c : Char)
deriving DecidableEq, Repr

namespace Mode

/-- Reading a character as code. -/
def start (c : Char) : Mode × List Mark :=
  if isQuote c then (.literal c, [.opening c])
  else if c = '/' then (.slash, [])
  else (.code, [.code c])

/-- One character: the next mode and the marks that are now certain. -/
def step (m : Mode) (c : Char) : Mode × List Mark :=
  match m with
  | .code => start c
  | .slash =>
    if c = '/' then (.lineComment, [])
    else if c = '*' then (.blockComment, [.code ' '])
    else ((start c).1, .code '/' :: (start c).2)
  | .literal q =>
    if c = '\\' then (.escape q, [.inside c])
    else if c = q then (.code, [.inside c])
    else (.literal q, [.inside c])
  | .escape q => (.literal q, [.inside c])
  | .lineComment => if c = '\n' then (.code, [.code c]) else (.lineComment, [])
  | .blockComment => if c = '*' then (.star, []) else (.blockComment, [])
  | .star => if c = '/' then (.code, []) else if c = '*' then (.star, []) else (.blockComment, [])

/-- The marks still owed when the text ends: a slash that began no comment. -/
def finish : Mode → List Mark
  | .slash => [.code '/']
  | _ => []

def after (m : Mode) (s : List Char) : Mode := s.foldl (fun m c => (m.step c).1) m

/-- The marks of a text that is read to its end. -/
def marks (m : Mode) : List Char → List Mark
  | [] => m.finish
  | c :: r => (m.step c).2 ++ marks (m.step c).1 r

end Mode

/-- A stretch of a program text. -/
inductive Segment where
  | code (text : List Char)
  /-- A literal with its quotes; the text may end before its closing quote. -/
  | literal (text : List Char)
deriving DecidableEq, Repr

namespace Segment

def text : Segment → List Char
  | .code t => t
  | .literal t => t

def isLiteral : Segment → Bool
  | .code _ => false
  | .literal _ => true

/-- Segments of a marked text, with the characters that belong to a literal opened before it. -/
def group : List Mark → List Char × List Segment
  | [] => ([], [])
  | m :: r =>
    match m, group r with
    | .inside c, (tail, more) => (c :: tail, more)
    | .opening c, (tail, more) => ([], .literal (c :: tail) :: more)
    | .code c, (_, .code t :: more) => ([], .code (c :: t) :: more)
    | .code c, (_, more) => ([], .code [c] :: more)

end Segment

def segments (s : List Char) : List Segment := (Segment.group (Mode.code.marks s)).2

/-- A literal with its content blanked out: the first and the last character stay. -/
def blankOut : List Char → List Char
  | [] => []
  | [c] => [c]
  | c :: d :: r => c :: (List.replicate r.length '_' ++ [(d :: r).getLast (by simp)])

/-- The text with the content of its literals blanked out, so that a search finds code only. -/
def mask (s : List Char) : List Char :=
  (segments s).flatMap fun
    | .code t => t
    | .literal t => blankOut t

theorem length_blankOut (s : List Char) : (blankOut s).length = s.length := by
  match s with
  | [] => rfl
  | [_] => rfl
  | _ :: _ :: r => simp [blankOut]

namespace Mode

theorem after_append (m : Mode) (s t : List Char) : m.after (s ++ t) = (m.after s).after t := by
  simp [after, List.foldl_append]

end Mode

end HostPlan.Source
