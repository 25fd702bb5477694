import HostPlan.Data.Json.Reader
import HostPlan.Data.Yaml.Cursor
/-!
Quoted scalars. A line break inside a quoted scalar is a space, and so many line breaks as follow it
are kept; an escaped line break is nothing.
-/
namespace HostPlan.Yaml

def simpleEscapes : List (Char × Char) :=
  [('0', '\x00'), ('a', '\x07'), ('b', '\x08'), ('t', '\t'), ('\t', '\t'), ('n', '\n'),
   ('v', '\x0b'), ('f', '\x0c'), ('r', '\r'), ('e', '\x1b'), (' ', ' '), ('"', '"'), ('/', '/'),
   ('\\', '\\'), ('N', '\x85'), ('_', '\xa0'), ('L', '\u2028'), ('P', '\u2029')]

/-- How many digits follow the letter of a numeric escape. -/
def escapeLength? (c : Char) : Option Nat :=
  if c = 'x' then some 2 else if c = 'u' then some 4 else if c = 'U' then some 8 else none

def hexValueOf (digits : List Char) : Nat :=
  digits.foldl (fun n c => 16 * n + (Json.hexValue? c).getD 0) 0

/-- The character of a code point; what is none becomes a replacement character. -/
def charOfCode (n : Nat) : Char := if n.isValidChar then Char.ofNat n else '\uFFFD'

def scanCode (start : Mark) (length : Nat) (s : Cursor) : Except Fault (Nat × Cursor) :=
  let digits := (s.rest.take length).takeWhile isHex
  if digits.length = length then .ok (hexValueOf digits, s.skip length)
  else
    .error (.within "while scanning a double-quoted scalar" start
      ("expected escape sequence of " ++ toString length ++ " hexdecimal numbers, but found " ++
        named (s.peekAt digits.length)) s.mark)

/-- The character of a code, which may need a second unit that follows as another escape. -/
def joinCode (code : Nat) (s : Cursor) : Char × Cursor :=
  let digits := (s.rest.drop 2).take 4
  let low := hexValueOf digits
  if 0xD800 ≤ code ∧ code < 0xDC00 ∧ s.startsWith "\\u" ∧ digits.all isHex ∧ 0xDC00 ≤ low ∧
      low < 0xE000 then
    (Char.ofNat (0x10000 + (code - 0xD800) * 0x400 + (low - 0xDC00)), s.skip 6)
  else (charOfCode code, s)

/-- The line breaks and the indentation in front of the next line of a scalar. -/
def scanBreaks (start : Mark) : Nat → Cursor → Except Fault (List Char × Cursor)
  | 0, s => .ok ([], s)
  | fuel + 1, s =>
    if s.atSeparator then
      .error (.within "while scanning a quoted scalar" start "found unexpected document separator"
        s.mark)
    else
      let s := s.skipWhile fun c => c == ' ' || c == '\t'
      match s.lineBreak? with
      | none => .ok ([], s)
      | some (c, s) => (scanBreaks start fuel s).map fun (cs, s) => (c :: cs, s)

/-- The text of a line break and of the breaks behind it. -/
def folded (first : Char) (more : List Char) : List Char :=
  if first ≠ '\n' then first :: more else if more.isEmpty then [' '] else more

def scanEscape (start : Mark) (s : Cursor) : Except Fault (List Char × Cursor) :=
  let c := s.peek
  match simpleEscapes.lookup c, escapeLength? c, s.lineBreak? with
  | some d, _, _ => .ok ([d], s.next)
  | none, some n, _ =>
    (scanCode start n s.next).map fun (code, s) =>
      let (d, s) := joinCode code s
      ([d], s)
  | none, none, some (_, s) => scanBreaks start s.rest.length s
  | none, none, none =>
    .error (.within "while scanning a double-quoted scalar" start
      ("found unknown escape character " ++ named c) s.mark)

/-- The rest of a quoted scalar, up to its closing quote. -/
def scanQuoted (quote : Char) (start : Mark) : Nat → Cursor → Except Fault (List Char × Cursor)
  | 0, s =>
    .error (.within "while scanning a quoted scalar" start "found unexpected end of stream" s.mark)
  | fuel + 1, s =>
    let more := fun (text : List Char) (s : Cursor) =>
      (scanQuoted quote start fuel s).map fun (r, s) => (text ++ r, s)
    let c := s.peek
    if c = quote then
      if quote = '\'' ∧ s.peekAt 1 = '\'' then more ['\''] (s.skip 2) else .ok ([], s.next)
    else if c = '\\' ∧ quote = '"' then do
      let (text, s) ← scanEscape start s.next
      more text s
    else if c = ' ' ∨ c = '\t' ∨ Fault.endsLine c then
      let (spaces, s) := s.span fun c => c == ' ' || c == '\t'
      if s.rest.isEmpty then
        .error (.within "while scanning a quoted scalar" start "found unexpected end of stream"
          s.mark)
      else
        match s.lineBreak? with
        | some (b, s) => do
          let (breaks, s) ← scanBreaks start s.rest.length s
          more (folded b breaks) s
        | none => more spaces s
    else more [c] s.next

end HostPlan.Yaml
