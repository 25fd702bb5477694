import HostPlan.Data.Value
/-!
Reading JSON text. A key that an object repeats keeps its place and its last value. Whole numbers
are exact, up to a length at which the text is refused; a text that starts with a byte order mark
is refused as well.
-/
namespace HostPlan.Json

/-- Longer numerals are not read. -/
def maxDigits : Nat := 4300

def isSpace (c : Char) : Bool := c == ' ' || c == '\t' || c == '\n' || c == '\r'

def skipSpace (s : List Char) : List Char := s.dropWhile isSpace

def hexValue? (c : Char) : Option Nat :=
  if '0' ≤ c ∧ c ≤ '9' then some (c.toNat - 48)
  else if 'a' ≤ c ∧ c ≤ 'f' then some (c.toNat - 87)
  else if 'A' ≤ c ∧ c ≤ 'F' then some (c.toNat - 55)
  else none

def readUnit? : List Char → Option (Nat × List Char)
  | a :: b :: c :: d :: r => do
    let a ← hexValue? a
    let b ← hexValue? b
    let c ← hexValue? c
    let d ← hexValue? d
    pure (4096 * a + 256 * b + 16 * c + d, r)
  | _ => none

/-- The character of an escape whose first unit has been read: two units that form a surrogate pair
are one character. -/
def joinUnits (high : Nat) (r : List Char) : Char × List Char :=
  if 0xD800 ≤ high ∧ high < 0xDC00 then
    match r with
    | '\\' :: 'u' :: t =>
      match readUnit? t with
      | some (low, t) =>
        if 0xDC00 ≤ low ∧ low < 0xE000 then
          (Char.ofNat (0x10000 + (high - 0xD800) * 0x400 + (low - 0xDC00)), t)
        else ('\uFFFD', r)
      | none => ('\uFFFD', r)
    | _ => ('\uFFFD', r)
  else if 0xDC00 ≤ high ∧ high < 0xE000 then ('\uFFFD', r)
  else (Char.ofNat high, r)

def plainEscape? (c : Char) : Option Char :=
  if c = '"' ∨ c = '\\' ∨ c = '/' then some c
  else if c = 'b' then some '\x08'
  else if c = 'f' then some '\x0c'
  else if c = 'n' then some '\n'
  else if c = 'r' then some '\r'
  else if c = 't' then some '\t'
  else none

/-- The rest of a string whose opening quote has been read. -/
def readString? (fuel : Nat) (s : List Char) : Option (List Char × List Char) :=
  match fuel, s with
  | _, '"' :: r => some ([], r)
  | fuel + 1, '\\' :: 'u' :: r => do
    let (unit, r) ← readUnit? r
    let (c, r) := joinUnits unit r
    let (t, r) ← readString? fuel r
    pure (c :: t, r)
  | fuel + 1, '\\' :: e :: r => do
    let c ← plainEscape? e
    let (t, r) ← readString? fuel r
    pure (c :: t, r)
  | fuel + 1, c :: r =>
    if c.toNat < 32 ∨ c = '\\' then none
    else do
      let (t, r) ← readString? fuel r
      pure (c :: t, r)
  | _, _ => none

def readDigits (s : List Char) : List Char × List Char :=
  (s.takeWhile Char.isDigit, s.dropWhile Char.isDigit)

def digitsValue (ds : List Char) : Nat := ds.foldl (fun n c => 10 * n + (c.toNat - 48)) 0

/-- A fraction or an exponent, if its digits follow. -/
def readFraction (s : List Char) : List Char × List Char :=
  match s with
  | '.' :: r =>
    match readDigits r with
    | ([], _) => ([], s)
    | (ds, t) => ('.' :: ds, t)
  | _ => ([], s)

def readExponent (s : List Char) : List Char × List Char :=
  match s with
  | e :: r =>
    if e = 'e' ∨ e = 'E' then
      let (sign, t) :=
        match r with
        | '-' :: t => (['-'], t)
        | '+' :: t => ([], t)
        | t => ([], t)
      match readDigits t with
      | ([], _) => ([], s)
      | (ds, t) => ('e' :: (sign ++ ds), t)
    else ([], s)
  | [] => ([], s)

def readNumber? (negative : Bool) (s : List Char) : Option (Value × List Char) :=
  let (digits, r) := readDigits s
  match digits with
  | [] => none
  | d :: ds =>
    let (digits, r) := if d = '0' then (['0'], ds ++ r) else (digits, r)
    let (fraction, r) := readFraction r
    let (exponent, r) := readExponent r
    if fraction.isEmpty && exponent.isEmpty then
      if maxDigits < digits.length then none
      else
        let n : Int := digitsValue digits
        some (.number (if negative then -n else n), r)
    else
      let sign := if negative then ['-'] else []
      some (.real (String.ofList (sign ++ digits ++ fraction ++ exponent)), r)

mutual

def readValue? (fuel : Nat) (s : List Char) : Option (Value × List Char) :=
  match fuel with
  | 0 => none
  | fuel + 1 =>
    match s with
    | '"' :: r => (readString? r.length r).map fun (t, r) => (.text (String.ofList t), r)
    | '[' :: r =>
      match skipSpace r with
      | ']' :: r => some (.list [], r)
      | r => (readItems? fuel r).map fun (vs, r) => (.list vs, r)
    | '{' :: r =>
      match skipSpace r with
      | '}' :: r => some (.record [], r)
      | r => (readFields? fuel r).map fun (fs, r) => (.record (Entries.ofList fs), r)
    | 'n' :: 'u' :: 'l' :: 'l' :: r => some (.null, r)
    | 't' :: 'r' :: 'u' :: 'e' :: r => some (.flag true, r)
    | 'f' :: 'a' :: 'l' :: 's' :: 'e' :: r => some (.flag false, r)
    | 'N' :: 'a' :: 'N' :: r => some (.real "nan", r)
    | 'I' :: 'n' :: 'f' :: 'i' :: 'n' :: 'i' :: 't' :: 'y' :: r => some (.real "inf", r)
    | '-' :: 'I' :: 'n' :: 'f' :: 'i' :: 'n' :: 'i' :: 't' :: 'y' :: r => some (.real "-inf", r)
    | '-' :: r => readNumber? true r
    | _ => readNumber? false s

def readItems? (fuel : Nat) (s : List Char) : Option (List Value × List Char) :=
  match fuel with
  | 0 => none
  | fuel + 1 => do
    let (v, r) ← readValue? fuel s
    match skipSpace r with
    | ',' :: r =>
      let (vs, r) ← readItems? fuel (skipSpace r)
      pure (v :: vs, r)
    | ']' :: r => pure ([v], r)
    | _ => none

def readFields? (fuel : Nat) (s : List Char) : Option (List (String × Value) × List Char) :=
  match fuel, s with
  | fuel + 1, '"' :: r => do
    let (k, r) ← readString? r.length r
    match skipSpace r with
    | ':' :: r =>
      let (v, r) ← readValue? fuel (skipSpace r)
      match skipSpace r with
      | ',' :: r =>
        let (fs, r) ← readFields? fuel (skipSpace r)
        pure ((String.ofList k, v) :: fs, r)
      | '}' :: r => pure ([(String.ofList k, v)], r)
      | _ => none
    | _ => none
  | _, _ => none

end

section Clauses

variable {fuel : Nat} {k r s t u w : List Char}

theorem readString?_code (fuel : Nat) (r : List Char) :
    readString? (fuel + 1) ('\\' :: 'u' :: r) = (readUnit? r).bind fun unit =>
      let char := joinUnits unit.1 unit.2
      (readString? fuel char.2).bind fun p => some (char.1 :: p.1, p.2) := rfl

theorem readValue?_quote (fuel : Nat) (r : List Char) : readValue? (fuel + 1) ('"' :: r) =
    (readString? r.length r).map fun p => (.text (String.ofList p.1), p.2) := rfl

theorem readItems?_last {v : Value} (item : readValue? fuel s = some (v, t))
    (last : skipSpace t = ']' :: r) : readItems? (fuel + 1) s = some ([v], r) := by
  change (readValue? fuel s).bind _ = _
  rw [item, Option.bind_some]
  dsimp only
  rw [last]
  rfl

theorem readItems?_comma {v : Value} (item : readValue? fuel s = some (v, t))
    (comma : skipSpace t = ',' :: r) : readItems? (fuel + 1) s =
      (readItems? fuel (skipSpace r)).map fun p => (v :: p.1, p.2) := by
  change (readValue? fuel s).bind _ = _
  rw [item, Option.bind_some]
  dsimp only
  rw [comma]
  exact Option.map_eq_bind.symm

theorem readFields?_last {v : Value} (key : readString? s.length s = some (k, t))
    (colon : skipSpace t = ':' :: u) (value : readValue? fuel (skipSpace u) = some (v, w))
    (last : skipSpace w = '}' :: r) :
    readFields? (fuel + 1) ('"' :: s) = some ([(String.ofList k, v)], r) := by
  change (readString? s.length s).bind _ = _
  rw [key, Option.bind_some]
  dsimp only
  rw [colon]
  change (readValue? fuel (skipSpace u)).bind _ = _
  rw [value, Option.bind_some]
  dsimp only
  rw [last]
  rfl

theorem readFields?_comma {v : Value} (key : readString? s.length s = some (k, t))
    (colon : skipSpace t = ':' :: u) (value : readValue? fuel (skipSpace u) = some (v, w))
    (comma : skipSpace w = ',' :: r) : readFields? (fuel + 1) ('"' :: s) =
      (readFields? fuel (skipSpace r)).map fun p => ((String.ofList k, v) :: p.1, p.2) := by
  change (readString? s.length s).bind _ = _
  rw [key, Option.bind_some]
  dsimp only
  rw [colon]
  change (readValue? fuel (skipSpace u)).bind _ = _
  rw [value, Option.bind_some]
  dsimp only
  rw [comma]
  exact Option.map_eq_bind.symm

/-- A list that does not end at once has items. -/
theorem readValue?_bracket (start : skipSpace s = t) (h : t.head? ≠ some ']') :
    readValue? (fuel + 1) ('[' :: s) = (readItems? fuel t).map fun p => (.list p.1, p.2) := by
  have clause : readValue? (fuel + 1) ('[' :: s) =
      match skipSpace s with
      | ']' :: r => some (.list [], r)
      | r => (readItems? fuel r).map fun p => (.list p.1, p.2) := rfl
  rw [clause, start]
  split
  · exact absurd rfl h
  · rfl

/-- A record that does not end at once has fields. -/
theorem readValue?_brace (start : skipSpace s = t) (h : t.head? ≠ some '}') :
    readValue? (fuel + 1) ('{' :: s) =
      (readFields? fuel t).map fun p => (.record (Entries.ofList p.1), p.2) := by
  have clause : readValue? (fuel + 1) ('{' :: s) =
      match skipSpace s with
      | '}' :: r => some (.record [], r)
      | r => (readFields? fuel r).map fun p => (.record (Entries.ofList p.1), p.2) := rfl
  rw [clause, start]
  split
  · exact absurd rfl h
  · rfl

end Clauses

def read? (s : List Char) : Option Value :=
  match readValue? (2 * s.length + 1) (skipSpace s) with
  | some (v, r) => if (skipSpace r).isEmpty then some v else none
  | none => none

end HostPlan.Json
