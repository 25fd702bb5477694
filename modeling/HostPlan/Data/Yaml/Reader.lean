import HostPlan.Data.Value
import HostPlan.Data.Yaml.Tree
/-!
The data that a YAML document stands for. The fields of a merged mapping stand before those of the
mapping that it is merged into, which override them.
-/
namespace HostPlan.Yaml

def valueOf (base : Nat) (digits : List Char) : Nat :=
  digits.foldl (fun n c => base * n + (Json.hexValue? c).getD 0) 0

/-- A numeral that has the shape of a whole number. -/
def integerOf (s : List Char) : Int :=
  let s := s.filter (· != '_')
  let n :=
    match unsigned s with
    | '0' :: 'b' :: r => valueOf 2 r
    | '0' :: 'x' :: r => valueOf 16 r
    | '0' :: 'o' :: r => valueOf 8 r
    | r => valueOf 10 r
  if s.head? = some '-' then -n else n

def realOf (s : List Char) : String :=
  let s := (s.filter (· != '_')).map Char.toLower
  match s with
  | '.' :: 'i' :: r => String.ofList ('i' :: r)
  | '-' :: '.' :: 'i' :: r => String.ofList ('-' :: 'i' :: r)
  | '+' :: '.' :: 'i' :: r => String.ofList ('i' :: r)
  | '.' :: 'n' :: r => String.ofList ('n' :: r)
  | _ => String.ofList s

def unknownTag (name : String) (m : Mark) : Fault :=
  .problem ("could not determine a constructor for the tag " ++
    String.ofList (Value.quotedText name.toList)) m

def plainValue (text : List Char) (m : Mark) : Except Fault Value :=
  match Meaning.of text with
  | .null => .ok .null
  | .flag b => .ok (.flag b)
  | .integer => .ok (.number (integerOf text))
  | .real => .ok (.real (realOf text))
  | .merge => .error (unknownTag (commonTags ++ "merge") m)
  | .default => .error (unknownTag (commonTags ++ "value") m)
  | .timestamp => .ok (.text (String.ofList text))
  | .text => .ok (.text (String.ofList text))

/-- A flag that is tagged as one may be said in more words than an untagged one. -/
def taggedFlag? (text : List Char) : Option Bool :=
  let word := String.ofList (text.map Char.toLower)
  if word ∈ ["true", "yes", "on", "y"] then some true
  else if word ∈ ["false", "no", "off", "n"] then some false
  else none

def scalarValue (plain : Bool) (tag : Option String) (text : List Char) (m : Mark) :
    Except Fault Value :=
  match tag with
  | none => if plain then plainValue text m else .ok (.text (String.ofList text))
  | some t =>
    if t = "!" then plainValue text m
    else if t = commonTags ++ "str" then .ok (.text (String.ofList text))
    else if t = commonTags ++ "null" then .ok .null
    else if t = commonTags ++ "bool" then
      match taggedFlag? text with
      | some b => .ok (.flag b)
      | none => .error (unknownTag t m)
    else if t ∈ ["int", "float"].map (commonTags ++ ·) then plainValue text m
    else .error (unknownTag t m)

/-- How a value is named beside its key; what a collection holds is not shown. -/
def shallow : Value → String
  | .list _ => "[]"
  | .record _ => "\x7b\x7d"
  | v => v.display

/-- Keys that name the same entry. -/
def sameKey : Value → Value → Bool
  | .flag a, .flag b => a == b
  | .flag a, .number n => n == if a then 1 else 0
  | .number n, .flag a => n == if a then 1 else 0
  | k, k' => k == k'

def duplicateKey (record : Mark) (k v earlier : Value) (m : Mark) : Fault :=
  .within "while constructing a mapping" record
    ("found duplicate key \"" ++ k.display ++ "\" with value \"" ++ shallow v ++
      "\" (original value: \"" ++ shallow earlier ++ "\")") m

/-- The fields of a mapping while it is read. -/
structure Fields where
  merged : List (String × Value) := []
  own : List (Value × Value × Mark) := []

/-- One more field; a key that is there already is a fault. -/
def Fields.add (record : Mark) (checked : Bool) (k v : Value) (m : Mark) (fs : Fields) :
    Except Fault Fields :=
  match fs.own.find? fun f => sameKey f.1 k with
  | some f =>
    if checked then .error (duplicateKey record k v f.2.1 m)
    else .ok { fs with own := fs.own ++ [(k, v, m)] }
  | none => .ok { fs with own := fs.own ++ [(k, v, m)] }

def Fields.value (fs : Fields) : Value :=
  .record (Entries.ofList (fs.merged ++ fs.own.map fun f => (f.1.display, f.2.1)))

/-- The fields that a merged value brings. -/
def mergedFields (record : Mark) (n : Tree) (v : Value) : Except Fault (List (String × Value)) :=
  match v with
  | .record fields => .ok fields
  | .list items =>
    items.reverse.foldlM (fun fields v =>
      match v with
      | .record more => .ok (fields ++ more)
      | _ => .error (.within "while constructing a mapping" record
          "expected a mapping for merging, but found scalar" n.start)) []
  | _ =>
    .error (.within "while constructing a mapping" record
      "expected a mapping or list of mappings for merging, but found scalar" n.start)

def isMerge : Tree → Bool
  | .scalar true none text _ => Meaning.of text == .merge
  | _ => false

def isDefault : Tree → Bool
  | .scalar true none text _ => Meaning.of text == .default
  | _ => false

mutual

def Tree.value : Tree → Except Fault Value
  | .scalar plain tag text m => scalarValue plain tag text m
  | .list tag items m =>
    match tag with
    | none => (itemValues items).map .list
    | some t =>
      if t = "!" ∨ t = commonTags ++ "seq" then (itemValues items).map .list
      else .error (unknownTag t m)
  | .record tag fields m =>
    let read := do
      let merged ← mergedOf m fields []
      let fs ← ownFields m merged.isEmpty fields { merged := merged }
      pure fs.value
    match tag with
    | none => read
    | some t =>
      if t = "!" ∨ t = commonTags ++ "map" then read else .error (unknownTag t m)

def itemValues : List Tree → Except Fault (List Value)
  | [] => .ok []
  | n :: ns => do
    let v ← n.value
    pure (v :: (← itemValues ns))

/-- What the mappings under a merge key bring. -/
def mergedOf (record : Mark) :
    List (Tree × Tree) → List (String × Value) → Except Fault (List (String × Value))
  | [], merged => .ok merged
  | (k, v) :: fields, merged =>
    if isMerge k then
      if merged.isEmpty then do
        let more ← mergedFields record v (← v.value)
        mergedOf record fields more
      else
        .error (.within "while constructing a mapping" record "found duplicate key \"<<\"" k.start)
    else mergedOf record fields merged

def ownFields (record : Mark) (checked : Bool) :
    List (Tree × Tree) → Fields → Except Fault Fields
  | [], fs => .ok fs
  | (k, v) :: fields, fs =>
    if isMerge k then ownFields record checked fields fs
    else do
      let key ← if isDefault k then pure (.text "=") else k.value
      if key.record?.isSome then
        throw (.within "while constructing a mapping" record "found unhashable key" k.start)
      let value ← v.value
      let fs ← fs.add record checked key value k.start
      ownFields record checked fields fs

end

/-- The data of a text; an empty text holds nothing. -/
def read (text : List Char) : Except Fault Value := do
  match ← Tree.ofText text with
  | none => pure .null
  | some n => n.value

end HostPlan.Yaml
