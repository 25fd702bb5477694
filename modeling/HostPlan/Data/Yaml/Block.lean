import HostPlan.Data.Yaml.Quoted
/-!
Block scalars: lines below a bar or an angle sign, indented further than what holds them. A literal
scalar keeps its line breaks; a folded one joins lines that start with text. A sign in the header
says whether the line breaks at the end are kept, dropped, or one of them kept.
-/
namespace HostPlan.Yaml

inductive Chomping where
  | clip
  | keep
  | strip
deriving DecidableEq, Repr

structure BlockHeader where
  folded : Bool
  chomping : Chomping := .clip
  increment : Option Nat := none
deriving Repr

def blockFault (start : Mark) (problem : String) (s : Cursor) : Fault :=
  .within "while scanning a block scalar" start problem s.mark

def scanChomping (s : Cursor) : Option Chomping × Cursor :=
  if s.peek = '+' then (some .keep, s.next)
  else if s.peek = '-' then (some .strip, s.next)
  else (none, s)

def scanIncrement (start : Mark) (s : Cursor) : Except Fault (Option Nat × Cursor) :=
  if s.peek = '0' then
    .error (blockFault start "expected indentation indicator in the range 1-9, but found 0" s)
  else if s.peek.isDigit then .ok (some (s.peek.toNat - 48), s.next)
  else .ok (none, s)

/-- The signs behind the bar or the angle sign, and the rest of their line. -/
def scanHeader (start : Mark) (folded : Bool) (s : Cursor) :
    Except Fault (BlockHeader × Cursor) := do
  let (before, s) := scanChomping s
  let (increment, s) ← scanIncrement start s
  let (after, s) := if before.isNone && increment.isSome then scanChomping s else (none, s)
  if !(s.peek == ' ' || Fault.endsLine s.peek) then
    throw (blockFault start
      ("expected chomping or indentation indicators, but found " ++ named s.peek) s)
  let s := s.skipWhile fun c => c == ' ' || c == '\t'
  let s := if s.peek = '#' then s.skipWhile fun c => !Fault.endsLine c else s
  if !Fault.endsLine s.peek then
    throw (blockFault start ("expected a comment or a line break, but found " ++ named s.peek) s)
  let s :=
    match s.lineBreak? with
    | some (_, s) => s
    | none => s
  pure (⟨folded, ((before.or after).getD .clip), increment⟩, s)

/-- Empty lines at the start, and the deepest indentation among them and the first full line. -/
def firstLines : Nat → Nat → Cursor → List Char × Nat × Cursor
  | 0, deepest, s => ([], deepest, s)
  | fuel + 1, deepest, s =>
    if s.peek = ' ' then firstLines fuel (max deepest s.next.mark.column) s.next
    else
      match s.lineBreak? with
      | some (c, s) =>
        let (cs, deepest, s) := firstLines fuel deepest s
        (c :: cs, deepest, s)
      | none => ([], deepest, s)

def skipIndent (indent : Nat) : Nat → Cursor → Cursor
  | 0, s => s
  | fuel + 1, s =>
    if s.mark.column < indent ∧ s.peek = ' ' then skipIndent indent fuel s.next else s

/-- Empty lines in front of the next line at an indentation. -/
def emptyLines (indent : Nat) : Nat → Cursor → List Char × Cursor
  | 0, s => ([], s)
  | fuel + 1, s =>
    let s := skipIndent indent indent s
    match s.lineBreak? with
    | some (c, s) =>
      let (cs, s) := emptyLines indent fuel s
      (c :: cs, s)
    | none => ([], s)

/-- The lines of a block from the first full one on: the text without the breaks at its end, the
first of these breaks, and the others. -/
def blockLines (h : BlockHeader) (outermost : Bool) (indent : Nat) :
    Nat → List Char → Cursor → List Char × List Char × List Char × Cursor
  | 0, breaks, s => ([], [], breaks, s)
  | fuel + 1, breaks, s =>
    if s.mark.column ≠ indent ∨ s.rest.isEmpty then ([], [], breaks, s)
    else
      let indented := s.peek == ' ' || s.peek == '\t'
      let (line, s) := s.span fun c => !Fault.endsLine c
      let (lineBreak, s) :=
        match s.lineBreak? with
        | some (c, s) => ([c], s)
        | none => ([], s)
      let (next, s) := emptyLines indent s.rest.length s
      let ended := outermost && s.mark.column == 0 && s.atSeparator
      if ended || s.mark.column != indent || s.rest.isEmpty then
        (breaks ++ line, lineBreak, next, s)
      else
        let joint :=
          if h.folded && lineBreak == ['\n'] && !indented && !(s.peek == ' ' || s.peek == '\t') then
            if next.isEmpty then [' '] else []
          else lineBreak
        let (text, last, more, s) := blockLines h outermost indent fuel next s
        (breaks ++ line ++ joint ++ text, last, more, s)

/-- A block scalar whose bar or angle sign has been read; the number is the least column of its
text. -/
def scanBlock (start : Mark) (folded : Bool) (least : Nat) (s : Cursor) :
    Except Fault (List Char × Cursor) := do
  let (h, s) ← scanHeader start folded s
  let (breaks, indent, s) :=
    match h.increment with
    | none =>
      let (breaks, deepest, s) := firstLines (s.rest.length + 1) 0 s
      (breaks, max least deepest, s)
    | some n =>
      let indent := max least 1 + n - 1
      let (breaks, s) := emptyLines indent (s.rest.length + 1) s
      (breaks, indent, s)
  let (text, last, more, s) := blockLines h (least == 0) indent (s.rest.length + 1) breaks s
  let ending :=
    match h.chomping with
    | .strip => []
    | .clip => last
    | .keep => last ++ more
  pure (text ++ ending, s)

end HostPlan.Yaml
