import HostPlan.Data.Yaml.Lexer
/-!
The tree of a YAML document. An alias stands for a copy of the node that bears its anchor; where a
node is missing, there is an empty scalar.
-/
namespace HostPlan.Yaml

inductive Tree where
  | scalar (plain : Bool) (tag : Option String) (text : List Char) (start : Mark)
  | list (tag : Option String) (items : List Tree) (start : Mark)
  | record (tag : Option String) (fields : List (Tree × Tree)) (start : Mark)
deriving Repr

namespace Tree

def start : Tree → Mark
  | .scalar _ _ _ m => m
  | .list _ _ m => m
  | .record _ _ m => m

def empty (m : Mark) : Tree := .scalar true none [] m

end Tree

/-- The tokens that are still to be read, and the nodes that bear anchors. -/
structure Feed where
  tokens : Tokens
  anchors : List (String × Tree) := []

abbrev Grammar := StateT Feed (Except Fault)

namespace Grammar

/-- The next token. Where it is missing, the fault of the text is found. -/
def peek : Grammar Placed := do
  let s ← get
  match s.tokens.list, s.tokens.fault with
  | t :: _, _ => pure t
  | [], some e => throw e
  | [], none => pure ⟨.streamEnd, {}, {}⟩

def advance : Grammar Unit :=
  modify fun s => { s with tokens := { s.tokens with list := s.tokens.list.tail } }

def take : Grammar Placed := do
  let t ← peek
  advance
  pure t

def found (t : Placed) : String := String.ofList (Value.quotedText t.token.name.toList)

def isDirective : Token → Bool
  | .directive _ => true
  | _ => false

/-- The anchor and the tag in front of a node, in either order. -/
def properties : Grammar (Option String × Option String) := do
  match (← peek).token with
  | .anchor a =>
    advance
    match (← peek).token with
    | .tag t =>
      advance
      pure (some a, some t)
    | _ => pure (some a, none)
  | .tag t =>
    advance
    match (← peek).token with
    | .anchor a =>
      advance
      pure (some a, some t)
    | _ => pure (none, some t)
  | _ => pure (none, none)

def resolveAlias (name : String) (m : Mark) : Grammar Tree := do
  match (← get).anchors.lookup name with
  | some n => pure n
  | none =>
    throw (.problem ("found undefined alias " ++ String.ofList (Value.quotedText name.toList)) m)

/-- A node, unless one of some tokens comes, which mean that it is missing at the given mark. -/
def unlessNext (missing : List Token) (m : Mark) (node : Grammar Tree) : Grammar Tree := do
  if missing.contains (← peek).token then pure (.empty m) else node

mutual

/-- A node. Outside of brackets it may be a block, and as the value of a key also a list whose
dashes stand no deeper than the key. -/
def node : Nat → (block dashes : Bool) → Grammar Tree
  | 0, _, _ => do pure (.empty (← peek).start)
  | fuel + 1, block, dashes => do
    let first ← peek
    if let .alias name := first.token then
      advance
      return ← resolveAlias name first.start
    let (anchor, tag) ← properties
    let t ← peek
    let result ←
      match t.token with
      | .scalar plain text => do
        advance
        pure (.scalar plain tag text first.start)
      | .openList => do
        advance
        pure (.list tag (← bracketItems fuel t.start true) first.start)
      | .openRecord => do
        advance
        pure (.record tag (← bracketFields fuel t.start true) first.start)
      | .blockEntry =>
        if dashes then do pure (.list tag (← dashItems fuel) first.start)
        else missing block anchor tag first t
      | .blockSequence =>
        if block then do
          advance
          pure (.list tag (← blockItems fuel t.start) first.start)
        else missing block anchor tag first t
      | .blockMapping =>
        if block then do
          advance
          pure (.record tag (← blockFields fuel t.start) first.start)
        else missing block anchor tag first t
      | _ => missing block anchor tag first t
    if let some a := anchor then
      modify fun s => { s with anchors := (a, result) :: s.anchors }
    pure result
where
  missing (block : Bool) (anchor tag : Option String) (first t : Placed) : Grammar Tree :=
    if anchor.isSome || tag.isSome then pure (.scalar true tag [] first.start)
    else
      throw (.within ("while parsing a " ++ (if block then "block" else "flow") ++ " node")
        first.start ("expected the node content, but found " ++ found t) t.start)

def blockItems : Nat → Mark → Grammar (List Tree)
  | 0, _ => pure []
  | fuel + 1, start => do
    let t ← take
    match t.token with
    | .blockEntry =>
      let item ← unlessNext [.blockEntry, .blockEnd] t.stop (node fuel true false)
      pure (item :: (← blockItems fuel start))
    | .blockEnd => pure []
    | _ =>
      throw (.within "while parsing a block collection" start
        ("expected <block end>, but found " ++ found t) t.start)

def dashItems : Nat → Grammar (List Tree)
  | 0 => pure []
  | fuel + 1 => do
    let t ← peek
    match t.token with
    | .blockEntry =>
      advance
      let item ← unlessNext [.blockEntry, .key, .value, .blockEnd] t.stop (node fuel true false)
      pure (item :: (← dashItems fuel))
    | _ => pure []

def blockFields : Nat → Mark → Grammar (List (Tree × Tree))
  | 0, _ => pure []
  | fuel + 1, start => do
    let t ← peek
    let ends := [Token.key, .value, .blockEnd]
    let value : Grammar Tree := do
      let v ← peek
      match v.token with
      | .value =>
        advance
        unlessNext ends v.stop (node fuel true true)
      | _ => pure (.empty v.start)
    match t.token with
    | .key =>
      advance
      let k ← unlessNext ends t.stop (node fuel true true)
      let v ← value
      pure ((k, v) :: (← blockFields fuel start))
    | .value =>
      let v ← value
      pure ((.empty t.start, v) :: (← blockFields fuel start))
    | .blockEnd =>
      advance
      pure []
    | _ =>
      throw (.within "while parsing a block mapping" start
        ("expected <block end>, but found " ++ found t) t.start)

/-- The items of a list in brackets; a key among them is a mapping of one field. -/
def bracketItems : Nat → Mark → (first : Bool) → Grammar (List Tree)
  | 0, _, _ => pure []
  | fuel + 1, start, first => do
    let t ← peek
    if t.token == .closeList then
      advance
      return []
    if !first then
      if t.token == .flowEntry then advance
      else
        throw (.within "while parsing a flow sequence" start
          ("expected ',' or ']', but got " ++ found t) t.start)
    let t ← peek
    match t.token with
    | .closeList =>
      advance
      pure []
    | .key =>
      advance
      let k ← unlessNext [.value, .flowEntry, .closeList] t.stop (node fuel false false)
      let v ← bracketValue fuel .closeList
      pure (.record none [(k, v)] t.start :: (← bracketItems fuel start false))
    | _ =>
      let item ← node fuel false false
      pure (item :: (← bracketItems fuel start false))

/-- The value behind a key in brackets, if there is one. -/
def bracketValue : Nat → Token → Grammar Tree
  | 0, _ => do pure (.empty (← peek).start)
  | fuel + 1, close => do
    let t ← peek
    match t.token with
    | .value =>
      advance
      unlessNext [.flowEntry, close] t.stop (node fuel false false)
    | _ => pure (.empty t.start)

def bracketFields : Nat → Mark → (first : Bool) → Grammar (List (Tree × Tree))
  | 0, _, _ => pure []
  | fuel + 1, start, first => do
    let t ← peek
    if t.token == .closeRecord then
      advance
      return []
    if !first then
      if t.token == .flowEntry then advance
      else
        throw (.within "while parsing a flow mapping" start
          ("expected ',' or '\x7d', but got " ++ found t) t.start)
    let t ← peek
    match t.token with
    | .closeRecord =>
      advance
      pure []
    | .key =>
      advance
      let k ← unlessNext [.value, .flowEntry, .closeRecord] t.stop (node fuel false false)
      let v ← bracketValue fuel .closeRecord
      pure ((k, v) :: (← bracketFields fuel start false))
    | .value =>
      let v ← bracketValue fuel .closeRecord
      pure ((.empty t.stop, v) :: (← bracketFields fuel start false))
    | _ =>
      let k ← node fuel false false
      let v := Tree.empty (← peek).start
      pure ((k, v) :: (← bracketFields fuel start false))

end

def directives : Nat → (versioned : Bool) → Grammar Unit
  | 0, _ => pure ()
  | fuel + 1, versioned => do
    let t ← peek
    match t.token with
    | .directive (.version major) =>
      advance
      if versioned then throw (.problem "found duplicate YAML directive" t.start)
      if major.dropWhile (· == '0') ≠ ['1'] then
        throw (.problem "found incompatible YAML document (version 1.* is required)" t.start)
      directives fuel true
    | .directive (.other _) =>
      advance
      directives fuel versioned
    | _ => pure ()

def skipEnds : Nat → Grammar Unit
  | 0 => pure ()
  | fuel + 1 => do
    if (← peek).token == .documentEnd then
      advance
      skipEnds fuel

/-- The start of the next document, and whether a line announces it; nothing at the end. -/
def openDocument (fuel : Nat) (bare : Bool) : Grammar (Option (Bool × Mark)) := do
  let t ← peek
  if bare && !(isDirective t.token || t.token == .documentStart || t.token == .streamEnd) then
    return some (false, t.start)
  skipEnds fuel
  if (← peek).token == .streamEnd then return none
  directives fuel false
  let t ← take
  if t.token == .documentStart then pure (some (true, t.start))
  else throw (.problem ("expected '<document start>', but found " ++ found t) t.start)

/-- The one document of a text, if it has any. -/
def document (fuel : Nat) : Grammar (Option Tree) := do
  match ← openDocument fuel true with
  | none => pure none
  | some (announced, _) =>
    let t ← peek
    let isEmpty := announced && (isDirective t.token || t.token == .documentStart ||
      t.token == .documentEnd || t.token == .streamEnd)
    let root ← if isEmpty then pure (.empty t.start) else node fuel true false
    let ended := (← peek).token == .documentEnd
    if ended then advance
    match ← openDocument fuel ended with
    | none => pure (some root)
    | some (_, m) =>
      throw (.within "expected a single document in the stream" root.start
        "but found another document" m)

end Grammar

/-- The tree of a text, if there is anything in it. -/
def Tree.ofText (text : List Char) : Except Fault (Option Tree) :=
  let tokens := Tokens.ofText text
  ((Grammar.document (2 * tokens.list.length + 2)).run { tokens := tokens }).map Prod.fst

end HostPlan.Yaml
