import HostPlan.Source.Argument
import HostPlan.Source.Call
import HostPlan.Source.Normal
/-!
Fluent chains. A chain is a statement that begins with `object.AddSomething(…)`, perhaps bound to a
variable, and goes on with method calls. The text of a whole program is searched for chains from
left to right; a root whose brackets do not close is noted and the search goes on behind its name,
so that broken text costs one chain and not those after it.
-/
namespace HostPlan.Source

open Text

structure Chain where
  rootMethod : String
  name : String := ""
  boundTo : Option String := none
  base? : Option String := none
  rootArgs : List String := []
  calls : List MethodCall := []
  raw : String := ""
deriving DecidableEq, Repr, Inhabited

/-- The head of a chain, up to its method name, and the text behind it. -/
structure Root where
  boundTo : Option (List Char)
  base : List Char
  method : List Char
  rest : List Char

/-- The factory methods that start a chain have a name that begins so and goes on. -/
def factoryStem : List Char := ['A', 'd', 'd']

def isFactory (method : List Char) : Bool :=
  factoryStem.isPrefixOf method && decide (factoryStem.length < method.length)

/-- `object.AddSomething` at the start of the text. -/
def factory? (boundTo : Option (List Char)) (s : List Char) : Option Root :=
  if (leadingWord s).isEmpty then none
  else
    match trimStart (afterWord s) with
    | '.' :: r =>
      let r := trimStart r
      if isFactory (leadingWord r) then some ⟨boundTo, leadingWord s, leadingWord r, afterWord r⟩
      else none
    | _ => none

/-- The variable of a binding `var name =` at the start of the text, and what follows. -/
def binding? (s : List Char) : Option (List Char × List Char) :=
  if leadingWord s = ['v', 'a', 'r'] ∨ leadingWord s = ['c', 'o', 'n', 's', 't'] then
    match afterWord s with
    | [] => none
    | b :: r =>
      let r := trimStart r
      if !isBlank b || (leadingWord r).isEmpty then none
      else
        match trimStart (afterWord r) with
        | '=' :: t => some (leadingWord r, trimStart t)
        | _ => none
  else none

/-- The root of a chain at the start of a word. -/
def root? (s : List Char) : Option Root :=
  match (binding? s).bind fun (name, r) => factory? (some name) r with
  | some root => some root
  | none => factory? none s

/-- The first root in a text and the number of characters before it. A root starts with a word; the
flag says that the character before the text is no word character. -/
def findRoot (fresh : Bool) : List Char → Option (Nat × Root)
  | [] => none
  | c :: r =>
    let later := (findRoot (!isWord c) r).map fun (n, root) => (n + 1, root)
    if fresh && isWord c then
      match root? (c :: r) with
      | some root => some (0, root)
      | none => later
    else later

/-- The chain with this root, and the text behind it. The first text starts with the root, the
second one right behind it. -/
def readChain? (root : Root) (whole behind : List Char) : Option (Chain × List Char) :=
  match skipTypeArguments (behind.dropWhile (· == ' ')) with
  | some ('(' :: s) =>
    match untilClosed .code 1 s with
    | some (inner, r) =>
      let run := readCalls r
      if run.closed then
        let rest :=
          match trimStart run.rest with
          | ';' :: t => t
          | _ => run.rest
        some ({
          rootMethod := String.ofList root.method
          name := String.ofList ((firstLiteral? inner).getD [])
          boundTo := root.boundTo.map String.ofList
          base? := some (String.ofList root.base)
          rootArgs := (arguments inner).map String.ofList
          calls := run.calls
          raw := String.ofList (whole.take (whole.length - rest.length)) }, rest)
      else none
    | none => none
  | _ => none

/-- What a search for chains comes upon, with the position of its root. -/
inductive Found where
  | chain (position : Nat) (c : Chain)
  /-- A root whose brackets do not close, with the start of its text. -/
  | unclosed (position : Nat) (snippet : String)
deriving DecidableEq, Repr

/-- How much of a broken chain is quoted. -/
def snippetLength : Nat := 100

theorem factory?_rest {v : Option (List Char)} {s : List Char} {root : Root}
    (h : factory? v s = some root) : root.rest.length < s.length := by
  unfold factory? at h
  split at h
  · cases h
  · split at h
    · rename_i r hs
      simp only at h
      split at h
      · have h₁ := trimStart_length_le (afterWord s)
        have h₂ := afterWord_length_le s
        have h₃ := trimStart_length_le r
        have h₄ := afterWord_length_le (trimStart r)
        rw [hs] at h₁
        simp only [List.length_cons] at h₁
        rw [← Option.some.inj h]
        simp only
        omega
      · cases h
    · cases h

theorem binding?_rest {s name r : List Char} (h : binding? s = some (name, r)) :
    r.length < s.length := by
  unfold binding? at h
  split at h
  · split at h
    · cases h
    · rename_i b t hs
      simp only at h
      split at h
      · cases h
      · split at h
        · rename_i u hu
          have h₁ := afterWord_length_le s
          have h₂ := trimStart_length_le t
          have h₃ := afterWord_length_le (trimStart t)
          have h₄ := trimStart_length_le (afterWord (trimStart t))
          have h₅ := trimStart_length_le u
          simp only [hs, hu, List.length_cons] at h₁ h₄
          have h₆ := (Prod.mk.inj (Option.some.inj h)).2
          rw [← h₆]
          omega
        · cases h
  · cases h

theorem root?_rest {s : List Char} {root : Root} (h : root? s = some root) :
    root.rest.length < s.length := by
  unfold root? at h
  split at h
  · rename_i root' hb
    obtain ⟨⟨name, r⟩, hbind, hf⟩ := Option.bind_eq_some_iff.1 hb
    have h₁ := binding?_rest hbind
    have h₂ := factory?_rest hf
    rw [← Option.some.inj h]
    omega
  · exact factory?_rest h

theorem findRoot_rest {fresh : Bool} {s : List Char} {n : Nat} {root : Root}
    (h : findRoot fresh s = some (n, root)) : n + root.rest.length < s.length := by
  induction s generalizing fresh n with
  | nil => simp [findRoot] at h
  | cons c r ih =>
    have later : ∀ {b : Bool},
        ((findRoot b r).map fun (n, root) => (n + 1, root)) = some (n, root) →
        n + root.rest.length < (c :: r).length := by
      intro b hb
      obtain ⟨⟨m, root'⟩, hm, he⟩ := Option.map_eq_some_iff.1 hb
      simp only [Prod.mk.injEq] at he
      obtain ⟨rfl, rfl⟩ := he
      have := ih hm
      simp only [List.length_cons]
      omega
    rw [findRoot] at h
    simp only at h
    split at h
    · split at h
      · rename_i root' hr
        simp only [Option.some.injEq, Prod.mk.injEq] at h
        have := root?_rest hr
        rw [← h.1, ← h.2]
        omega
      · exact later h
    · exact later h

/-- The chains and the broken roots of a text. Roots are looked for in the masked text and read in
the text itself, which runs beside it; the number counts the characters that lie before both. -/
def search (position : Nat) (text masked : List Char) : List Found :=
  match _h : findRoot true masked with
  | none => []
  | some (before, root) =>
    let taken := masked.length - root.rest.length
    match readChain? root (text.drop before) (text.drop taken) with
    | some (c, rest) =>
      let taken := max taken (text.length - rest.length)
      .chain (position + before) c ::
        search (position + taken) (text.drop taken) (masked.drop taken)
    | none =>
      .unclosed (position + before) (String.ofList ((text.drop before).take snippetLength)) ::
        search (position + taken) (text.drop taken) (masked.drop taken)
termination_by masked.length
decreasing_by
  all_goals
    have := findRoot_rest _h
    simp only [List.length_drop]
    omega

/-- The chains and the broken roots of a program text, in order. -/
def searchSource (source : List Char) : List Found :=
  let text := normalize source
  search 0 text (mask text)

def chains (source : List Char) : List Chain :=
  (searchSource source).filterMap fun
    | .chain _ c => some c
    | .unclosed _ _ => none

/-- The starts of the broken chains of a program text. -/
def brokenChains (source : List Char) : List String :=
  (searchSource source).filterMap fun
    | .chain _ _ => none
    | .unclosed _ snippet => some snippet

end HostPlan.Source
