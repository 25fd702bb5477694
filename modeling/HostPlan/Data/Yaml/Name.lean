import HostPlan.Data.Yaml.Cursor
/-!
Names in YAML: of an anchor, of a tag, of a directive.
-/
namespace HostPlan.Yaml

def isAnchorChar (c : Char) : Bool :=
  let n := c.toNat
  ((decide (0x21 ≤ n) && decide (n ≤ 0x7E)) || (decide (0xA0 ≤ n) && n != 0xFEFF)) &&
    !",[]{}".toList.contains c

/-- The name of an anchor or of an alias, whose sign has not been read yet. -/
def scanAnchor (what : String) (s : Cursor) : Except Fault (String × Cursor) :=
  let start := s.mark
  let (name, s) := s.next.span isAnchorChar
  if name.isEmpty ∨ !(isSpaceOrEnd s.peek || ",[]{}".toList.contains s.peek) then
    .error (.within ("while scanning an " ++ what) start
      ("expected alphabetic or numeric character, but found " ++ named s.peek) s.mark)
  else .ok (String.ofList name, s)

def isWordChar (c : Char) : Bool := c.isAlphanum || c == '-' || c == '_'

def isTagChar (c : Char) : Bool :=
  c.isAlphanum || "-;/?:@&=+$,_.!~*'()[]%#".toList.contains c

/-- The start of the names of the tags that every reader knows. -/
def commonTags : String := "tag:yaml.org,2002:"

def scanTagName (start : Mark) (s : Cursor) : Except Fault (String × Cursor) :=
  let (name, s) := s.span isTagChar
  if name.isEmpty then
    .error (.within "while parsing an tag" start
      ("expected URI, but found " ++ named s.peek) s.mark)
  else .ok (String.ofList name, s)

/-- A tag: a name in angle signs, one of the common names behind two exclamation marks, or a name of
the document behind one. -/
def scanTag (s : Cursor) : Except Fault (String × Cursor) := do
  let start := s.mark
  let common := s.peekAt 1 == '!'
  let s := if common then s.next else s
  let (name, s) ←
    if s.peekAt 1 = '<' then do
      let (name, s) ← scanTagName start (s.skip 2)
      if s.peek = '>' then pure (name, s.next)
      else
        throw (.within "while parsing a tag" start ("expected '>' but found " ++ named s.peek)
          s.mark)
    else if isSpaceOrEnd (s.peekAt 1) then pure ("!", s.next)
    else
      let word := s.next.rest.takeWhile fun c => !(c == ' ' || Fault.endsLine c)
      if word.contains '!' then
        let handle := '!' :: (word.takeWhile (· != '!') ++ ['!'])
        throw (.within "while parsing a node" start
          ("found undefined tag handle " ++ String.ofList (Value.quotedText handle)) start)
      else do
        let (name, s) ← scanTagName start s.next
        pure ((if common then commonTags else "!") ++ name, s)
  if s.peek = ' ' ∨ Fault.endsLine s.peek then pure (name, s)
  else
    throw (.within "while scanning a tag" start ("expected ' ', but found " ++ named s.peek) s.mark)

def directiveFault (start : Mark) (expected : String) (s : Cursor) : Fault :=
  .within "while scanning a directive" start
    ("expected " ++ expected ++ ", but found " ++ named s.peek) s.mark

def scanNumber (start : Mark) (s : Cursor) : Except Fault (List Char × Cursor) :=
  let (digits, s) := s.span Char.isDigit
  if digits.isEmpty then .error (directiveFault start "a digit" s) else .ok (digits, s)

def scanVersion (start : Mark) (s : Cursor) : Except Fault (List Char × Cursor) := do
  let (major, s) ← scanNumber start (s.skipWhile (· == ' '))
  if s.peek ≠ '.' then throw (directiveFault start "a digit or '.'" s)
  let (_, s) ← scanNumber start s.next
  if !(s.peek == ' ' || Fault.endsLine s.peek) then
    throw (directiveFault start "a digit or ' '" s)
  pure (major, s)

inductive Directive where
  | version (major : List Char)
  | other (name : String)
deriving DecidableEq, Repr

def scanDirective (s : Cursor) : Except Fault (Directive × Cursor) := do
  let start := s.mark
  let (name, s) := s.next.span fun c => isWordChar c || c == ':' || c == '.'
  if name.isEmpty ∨ !(s.peek == ' ' || Fault.endsLine s.peek) then
    throw (directiveFault start "alphabetic or numeric character" s)
  let (directive, s) ←
    if name = "YAML".toList then do
      let (major, s) ← scanVersion start s
      pure (Directive.version major, s)
    else pure (Directive.other (String.ofList name), s.skipWhile fun c => !Fault.endsLine c)
  let s := s.skipWhile (· == ' ')
  let s := if s.peek = '#' then s.skipWhile fun c => !Fault.endsLine c else s
  if !Fault.endsLine s.peek then throw (directiveFault start "a comment or a line break" s)
  match s.lineBreak? with
  | some (_, s) => pure (directive, s)
  | none => pure (directive, s)

end HostPlan.Yaml
