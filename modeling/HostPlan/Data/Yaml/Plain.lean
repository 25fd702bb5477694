/-!
What an unquoted scalar of YAML stands for. Numerals may hold underscores; a numeral with a leading
zero is decimal. Whatever has none of the known shapes is text.
-/
namespace HostPlan.Yaml

inductive Meaning where
  | null
  | flag (b : Bool)
  | integer
  | real
  | timestamp
  /-- The key that merges another mapping into the one it stands in. -/
  | merge
  /-- The key of a default value. -/
  | default
  | text
deriving DecidableEq, Repr

def isBinary (c : Char) : Bool := c == '0' || c == '1'
def isOctal (c : Char) : Bool := decide ('0' ≤ c) && decide (c ≤ '7')
def isHex (c : Char) : Bool := c.isDigit || "abcdefABCDEF".toList.contains c

/-- One or more characters of a class, underscores among them. -/
def isRun (digit : Char → Bool) (s : List Char) : Bool :=
  !s.isEmpty && s.all fun c => digit c || c == '_'

def unsigned : List Char → List Char
  | '+' :: r => r
  | '-' :: r => r
  | s => s

/-- Signs and digits are all that a number may begin with. -/
def startsNumber : List Char → Bool
  | c :: _ => c.isDigit || c == '+' || c == '-'
  | [] => false

def isInteger (s : List Char) : Bool :=
  startsNumber s &&
    match unsigned s with
    | '0' :: 'b' :: r => isRun isBinary r
    | '0' :: 'x' :: r => isRun isHex r
    | '0' :: 'o' :: r => isRun isOctal r
    | t => isRun Char.isDigit t

/-- An exponent, whose sign may be left out or not. -/
def isExponent (signed : Bool) : List Char → Bool
  | e :: r =>
    (e == 'e' || e == 'E') &&
      (!signed || r.head? == some '+' || r.head? == some '-') &&
      !(unsigned r).isEmpty && (unsigned r).all Char.isDigit
  | [] => false

def isNumeral (c : Char) : Bool := c.isDigit || c == '_'

def isReal (s : List Char) : Bool :=
  match unsigned s with
  | '.' :: r =>
    [".inf", ".Inf", ".INF"].any (fun w => w.toList == unsigned s) ||
    [".nan", ".NaN", ".NAN"].any (fun w => w.toList == s) ||
    (!(r.takeWhile isNumeral).isEmpty &&
      match r.dropWhile isNumeral with
      | [] => true
      | e => isExponent true e)
  | c :: r =>
    c.isDigit &&
      match r.dropWhile isNumeral with
      | '.' :: t =>
        match t.dropWhile isNumeral with
        | [] => true
        | e => isExponent false e
      | e => isExponent false e
  | [] => false

/-- The text behind some digits, at least one and at most as many as asked for. -/
def afterDigits? (least most : Nat) (s : List Char) : Option (List Char) :=
  let n := ((s.take most).takeWhile Char.isDigit).length
  if least ≤ n then some (s.drop n) else none

def after? (marks : List Char) : List Char → Option (List Char)
  | c :: r => if c ∈ marks then some r else none
  | [] => none

def isZone (s : List Char) : Bool :=
  match s.dropWhile (fun c => c == ' ' || c == '\t') with
  | ['Z'] => true
  | t =>
    match (after? ['+', '-'] t).bind (afterDigits? 1 2) with
    | none => false
    | some [] => true
    | some r => (after? [':'] r).bind (afterDigits? 2 2) == some []

/-- A time of day, perhaps with a fraction and a zone. -/
def isTime (s : List Char) : Bool :=
  let seconds := do
    let r ← afterDigits? 1 2 s
    let r ← after? [':'] r
    let r ← afterDigits? 2 2 r
    let r ← after? [':'] r
    afterDigits? 2 2 r
  match seconds with
  | none => false
  | some r =>
    let r :=
      match r with
      | '.' :: t => t.dropWhile Char.isDigit
      | t => t
    r.isEmpty || isZone r

def isTimestamp (s : List Char) : Bool :=
  let parts := do
    let r ← afterDigits? 4 4 s
    let r ← after? ['-'] r
    let month ← afterDigits? 1 2 r
    let r ← after? ['-'] month
    let rest ← afterDigits? 1 2 r
    pure rest
  match parts with
  | none => false
  | some [] => s.length == 10
  | some (c :: r) =>
    if c = 'T' ∨ c = 't' then isTime r
    else if c = ' ' ∨ c = '\t' then isTime (r.dropWhile fun c => c == ' ' || c == '\t')
    else false

def nulls : List String := ["", "~", "null", "Null", "NULL"]
def trues : List String := ["true", "True", "TRUE"]
def falses : List String := ["false", "False", "FALSE"]

def Meaning.of (s : List Char) : Meaning :=
  let word := String.ofList s
  if word ∈ nulls then .null
  else if word ∈ trues then .flag true
  else if word ∈ falses then .flag false
  else if isReal s then .real
  else if isInteger s then .integer
  else if isTimestamp s then .timestamp
  else if word = "<<" then .merge
  else if word = "=" then .default
  else .text

end HostPlan.Yaml
