import HostPlan.Data.Yaml.Block
import HostPlan.Data.Yaml.Token
import HostPlan.Data.Yaml.Unquoted
/-!
YAML cut into tokens. That something is a key shows only at the colon behind it; its place among the
tokens is remembered until the colon comes or can no longer come. A key that is written without a
question mark stands on one line and is not too long.
-/
namespace HostPlan.Yaml

/-- A place where a key may have begun. -/
structure PossibleKey where
  /-- How many tokens stand before it. -/
  before : Nat
  /-- Nothing else can stand there. -/
  required : Bool
  mark : Mark
deriving Repr

structure Lexer where
  cursor : Cursor
  tokens : Array Placed := #[]
  /-- The brackets that are open, the innermost first. -/
  brackets : List Char := []
  /-- One more than the column of the innermost block, zero outside of all blocks. -/
  depth : Nat := 0
  outer : List Nat := []
  keyAllowed : Bool := true
  /-- The last possible key for each number of open brackets. -/
  keys : List (Nat × PossibleKey) := []

namespace Lexer

/-- The longest stretch between the start of a key and its colon. -/
def maxKey : Nat := 1024

def mark (s : Lexer) : Mark := s.cursor.mark

def inBrackets (s : Lexer) : Bool := !s.brackets.isEmpty

def keyFault (k : PossibleKey) (m : Mark) : Fault :=
  .within "while scanning a simple key" k.mark "could not find expected ':'" m

def isStale (m : Mark) (k : PossibleKey) : Bool :=
  k.mark.line != m.line || decide (maxKey < m.index - k.mark.index)

/-- Forgets possible keys whose colon can no longer come. -/
def dropStale (s : Lexer) : Except Fault Lexer :=
  match s.keys.find? fun k => isStale s.mark k.2 && k.2.required with
  | some (_, k) => .error (keyFault k s.mark)
  | none => .ok { s with keys := s.keys.filter fun k => !isStale s.mark k.2 }

/-- Forgets the possible key inside the innermost bracket. -/
def dropKey (s : Lexer) : Except Fault Lexer :=
  let level := s.brackets.length
  match s.keys.lookup level with
  | none => .ok s
  | some k =>
    if k.required then .error (keyFault k s.mark)
    else .ok { s with keys := s.keys.filter fun k => k.1 != level }

/-- What begins here may be a key. -/
def saveKey (s : Lexer) : Except Fault Lexer :=
  if s.keyAllowed then
    s.dropKey.map fun s =>
      let key := ⟨s.tokens.size, !s.inBrackets && s.depth == s.mark.column + 1, s.mark⟩
      { s with keys := s.keys ++ [(s.brackets.length, key)] }
  else .ok s

/-- A token from a mark to the cursor. -/
def emit (t : Token) (start : Mark) (s : Lexer) : Lexer :=
  { s with tokens := s.tokens.push ⟨t, start, s.mark⟩ }

def sign (t : Token) (length : Nat) (s : Lexer) : Lexer :=
  { s with cursor := s.cursor.skip length }.emit t s.mark

/-- A token at a mark, in front of the tokens from a position on. -/
def insert (position : Nat) (t : Token) (m : Mark) (s : Lexer) : Lexer :=
  { s with tokens := s.tokens.insertIdxIfInBounds position ⟨t, m, m⟩ }

/-- A block begins at a mark that lies deeper than the blocks around it. -/
def openBlock (position : Nat) (t : Token) (m : Mark) (s : Lexer) : Lexer :=
  if s.depth < m.column + 1 then
    { s with outer := s.depth :: s.outer, depth := m.column + 1 }.insert position t m
  else s

def closing (least : Nat) (m : Mark) : Nat → List Nat → Array Placed → Lexer → Lexer
  | depth, [], ts, s => { s with depth := depth, outer := [], tokens := ts }
  | depth, o :: outer, ts, s =>
    if least < depth then closing least m o outer (ts.push ⟨.blockEnd, m, m⟩) s
    else { s with depth := depth, outer := o :: outer, tokens := ts }

/-- The blocks deeper than a depth end here; brackets hold them open. -/
def closeBlocks (least : Nat) (s : Lexer) : Lexer :=
  if s.inBrackets then s else closing least s.mark s.depth s.outer s.tokens s

def skipGaps : Nat → Lexer → Lexer
  | 0, s => s
  | fuel + 1, s =>
    let c := s.cursor.skipWhile fun c => c == ' ' || (c == '\t' && s.inBrackets)
    let c := if c.peek = '#' then c.skipWhile fun c => !Fault.endsLine c else c
    match c.lineBreak? with
    | none => { s with cursor := c }
    | some (_, c) =>
      skipGaps fuel { s with cursor := c, keyAllowed := s.keyAllowed || !s.inBrackets }

def documentSign (t : Token) (s : Lexer) : Except Fault Lexer :=
  (s.closeBlocks 0).dropKey.map fun s => { s with keyAllowed := false }.sign t 3

def directiveLine (s : Lexer) : Except Fault Lexer := do
  let s ← (s.closeBlocks 0).dropKey
  let (d, c) ← scanDirective s.cursor
  pure ({ s with keyAllowed := false, cursor := c }.emit (.directive d) s.mark)

def openBracket (t : Token) (s : Lexer) : Except Fault Lexer :=
  s.saveKey.map fun s =>
    { s with brackets := s.cursor.peek :: s.brackets, keyAllowed := true }.sign t 1

def closeBracket (t : Token) (s : Lexer) : Except Fault Lexer :=
  s.dropKey.map fun s => { s with brackets := s.brackets.tail, keyAllowed := false }.sign t 1

def comma (s : Lexer) : Except Fault Lexer :=
  s.dropKey.map fun s => { s with keyAllowed := true }.sign .flowEntry 1

def dash (s : Lexer) : Except Fault Lexer :=
  if !s.inBrackets && !s.keyAllowed then
    .error (.problem "sequence entries are not allowed here" s.mark)
  else
    let s := if s.inBrackets then s else s.openBlock s.tokens.size .blockSequence s.mark
    s.dropKey.map fun s => { s with keyAllowed := true }.sign .blockEntry 1

def question (s : Lexer) : Except Fault Lexer :=
  if !s.inBrackets && !s.keyAllowed then
    .error (.problem "mapping keys are not allowed here" s.mark)
  else
    let s := if s.inBrackets then s else s.openBlock s.tokens.size .blockMapping s.mark
    s.dropKey.map fun s => { s with keyAllowed := !s.inBrackets }.sign .key 1

def colon (s : Lexer) : Except Fault Lexer :=
  let level := s.brackets.length
  match s.keys.lookup level with
  | some k =>
    let s := s.insert k.before .key k.mark
    let s := if s.inBrackets then s else s.openBlock k.before .blockMapping k.mark
    let keys := s.keys.filter fun k => k.1 != level
    .ok ({ s with keys, keyAllowed := false }.sign .value 1)
  | none =>
    if !s.inBrackets && !s.keyAllowed then
      .error (.problem "mapping values are not allowed here" s.mark)
    else
      let s := if s.inBrackets then s else s.openBlock s.tokens.size .blockMapping s.mark
      .ok ({ s with keyAllowed := !s.inBrackets }.sign .value 1)

/-- A token that may be a key, or the start of one. -/
def node (read : Cursor → Except Fault (Token × Cursor)) (s : Lexer) : Except Fault Lexer := do
  let s ← s.saveKey
  let (t, c) ← read s.cursor
  pure ({ s with keyAllowed := false, cursor := c }.emit t s.mark)

def quoted (quote : Char) : Lexer → Except Fault Lexer :=
  node fun c =>
    (scanQuoted quote c.mark (c.rest.length + 1) c.next).map fun (text, c) =>
      (.scalar false text, c)

def blockText (folded : Bool) (s : Lexer) : Except Fault Lexer := do
  let s ← s.dropKey
  let (text, c) ← scanBlock s.mark folded s.depth s.cursor.next
  pure ({ s with keyAllowed := true, cursor := c }.emit (.scalar false text) s.mark)

def plain (s : Lexer) : Except Fault Lexer :=
  s.saveKey.map fun s =>
    let (text, ended, c) := scanPlain s.inBrackets s.depth (s.cursor.rest.length + 1) s.cursor
    { s with keyAllowed := ended, cursor := c }.emit (.scalar true text) s.mark

/-- A colon at the cursor ends a key; `queued` says that the token before it may belong to a key. -/
def isColon (queued : Bool) (s : Lexer) : Bool :=
  let gap := isSpaceOrEnd (s.cursor.peekAt 1)
  let afterValue := queued && (s.tokens.back?.any fun t => t.token == .value)
  gap || (s.inBrackets && s.brackets.head? != some '[' && !afterValue)

def startsPlain (s : Lexer) : Bool :=
  let c := s.cursor.peek
  let next := s.cursor.peekAt 1
  if c = '-' then !isSpaceOrEnd next
  else if c = ':' then
    if s.inBrackets then !(next == ' ' || next == '\t') else !isSpaceOrEnd next
  else if c = '?' then !s.inBrackets && !isSpaceOrEnd next
  else !(isSpaceOrEnd c || ",[]{}#&*!|>'\"%@`".toList.contains c)

def token (queued : Bool) (s : Lexer) : Except Fault Lexer :=
  let c := s.cursor.peek
  let gap := isSpaceOrEnd (s.cursor.peekAt 1)
  let separator := s.mark.column == 0 && s.cursor.atSeparator
  if c = '%' ∧ s.mark.column = 0 then s.directiveLine
  else if separator ∧ c = '-' then s.documentSign .documentStart
  else if separator then s.documentSign .documentEnd
  else if c = '[' then s.openBracket .openList
  else if c = '\x7b' then s.openBracket .openRecord
  else if c = ']' then s.closeBracket .closeList
  else if c = '\x7d' then s.closeBracket .closeRecord
  else if c = ',' then s.comma
  else if c = '-' ∧ gap then s.dash
  else if c = '?' ∧ (gap ∨ s.inBrackets) then s.question
  else if c = ':' ∧ s.isColon queued then s.colon
  else if c = '*' then s.node fun c => (scanAnchor "alias" c).map fun (n, c) => (.alias n, c)
  else if c = '&' then s.node fun c => (scanAnchor "anchor" c).map fun (n, c) => (.anchor n, c)
  else if c = '!' then s.node fun c => (scanTag c).map fun (n, c) => (.tag n, c)
  else if c = '|' ∧ !s.inBrackets then s.blockText false
  else if c = '>' ∧ !s.inBrackets then s.blockText true
  else if c = '\'' ∨ c = '"' then s.quoted c
  else if s.startsPlain then s.plain
  else
    .error (.within "while scanning for the next token" s.mark
      ("found character " ++ named c ++ " that cannot start any token") s.mark)

def finish (s : Lexer) : Except Fault Lexer :=
  (s.closeBlocks 0).dropKey.map fun s => { s with keys := [] }.emit .streamEnd s.mark

def step (s : Lexer) : Except Fault Lexer := do
  let queued := !s.keys.isEmpty
  let s ← (s.skipGaps (s.cursor.rest.length + 1)).dropStale
  let s := s.closeBlocks (s.mark.column + 1)
  if s.cursor.rest.isEmpty then s.finish else s.token queued

end Lexer

/-- Tokens, and the fault behind the last of them if there is one. -/
structure Tokens where
  list : List Placed
  fault : Option Fault

/-- The tokens that stand before each place where a key may have begun. -/
def Lexer.settled (s : Lexer) : List Placed :=
  (s.keys.foldl (fun n k => min n k.2.before) s.tokens.size |> s.tokens.toList.take)

def Lexer.run : Nat → Lexer → Tokens
  | 0, s => ⟨s.tokens.toList, none⟩
  | fuel + 1, s =>
    match s.dropStale with
    | .error e => ⟨s.settled, some e⟩
    | .ok s =>
      match s.step with
      | .error e => ⟨s.settled, some e⟩
      | .ok t =>
        if t.tokens.back?.any fun t => t.token == .streamEnd then ⟨t.tokens.toList, none⟩
        else run fuel t

/-- Characters that a document may hold. -/
def isAcceptable (c : Char) : Bool :=
  let n := c.toNat
  c == '\t' || c == '\n' || c == '\r' || (decide (0x20 ≤ n) && decide (n ≤ 0x7E)) || n == 0x85 ||
    (decide (0xA0 ≤ n) && n != 0xFFFE && n != 0xFFFF)

def Tokens.ofText (text : List Char) : Tokens :=
  match text.findIdx? fun c => !isAcceptable c with
  | some i => ⟨[], some (.unacceptable (text.getD i '\x00') i)⟩
  | none =>
    let text :=
      match text with
      | '\uFEFF' :: r => ⟨r, ⟨1, 0, 0⟩⟩
      | _ => { rest := text : Cursor }
    Lexer.run (text.rest.length + 2) { cursor := text }

end HostPlan.Yaml
