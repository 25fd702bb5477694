import HostPlan.Data.Entries
import HostPlan.Source.Literal
import HostPlan.Text.Blank
import HostPlan.Text.Word
/-!
What a single argument text says: the content of its first string literal, its text without quotes,
and the name and value of a named argument.
-/
namespace HostPlan.Source

open Text

/-- The content of a literal whose opening quote has just been read. A backslash keeps the next
character from closing the literal and does not go on to the next line. -/
def literalContent? (quote : Char) : List Char → Option (List Char)
  | [] => none
  | '\\' :: c :: r =>
    if c = '\n' then none else (literalContent? quote r).map fun t => '\\' :: c :: t
  | c :: r =>
    if c = quote then some []
    else if c = '\\' then none
    else (literalContent? quote r).map (c :: ·)

/-- The content of the first complete string literal. -/
def firstLiteral? : List Char → Option (List Char)
  | [] => none
  | c :: r =>
    if isQuote c then
      match literalContent? c r with
      | some t => some t
      | none => firstLiteral? r
    else firstLiteral? r

/-- The text without any quotes, trimmed. -/
def unquoted (s : List Char) : List Char := trim (s.filter fun c => !isQuote c)

/-- The text without the quotes at its two ends. -/
def stripQuotes (s : List Char) : List Char :=
  ((s.dropWhile isQuote).reverse.dropWhile isQuote).reverse

/-- An argument as a string: the content of its first literal, or else the bare token. Empty text
counts as no argument. -/
def argumentText? (s : List Char) : Option (List Char) :=
  match firstLiteral? s with
  | some (c :: t) => some (c :: t)
  | _ =>
    match unquoted s with
    | [] => none
    | t => some t

/-- Name and value of an argument such as `env: "PORT"`. Two colons in a row name nothing. -/
def named? (arg : List Char) : Option (List Char × List Char) :=
  let s := trim arg
  match leadingWord s, trimStart (afterWord s) with
  | [], _ => none
  | _, ':' :: ':' :: _ => none
  | name, ':' :: r => some (name, stripQuotes (trim r))
  | _, _ => none

def namedArguments (args : List (List Char)) : Entries (List Char) (List Char) :=
  Entries.ofList (args.filterMap named?)

end HostPlan.Source
