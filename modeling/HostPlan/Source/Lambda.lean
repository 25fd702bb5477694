import HostPlan.Source.Call
/-!
Lambda arguments. A lambda such as `c => c.WithImage("x").WithHostPort(1)` configures its parameter;
what counts is the row of calls on that parameter. A block body, or calls on something else, have
none.
-/
namespace HostPlan.Source

open Text

/-- How deep lambdas may nest before they are left unread. -/
def maxLambdaDepth : Nat := 8

/-- The rest of a list of parameters, up to its closing parenthesis. -/
def afterParameters? (s : List Char) : Option (List Char) :=
  match s with
  | ')' :: r => some r
  | ',' :: r =>
    let t := trimStart r
    if (leadingWord t).isEmpty then none
    else afterParameters? (trimStart (afterWord t))
  | _ => none
termination_by s.length
decreasing_by
  have h₁ := trimStart_length_le (afterWord (trimStart r))
  have h₂ := afterWord_length_le (trimStart r)
  have h₃ := trimStart_length_le r
  simp only [List.length_cons]
  omega

/-- The first parameter of a lambda and the text behind its parameters. -/
def parameter? (s : List Char) : Option (List Char × List Char) :=
  match trimStart s with
  | '(' :: r =>
    let t := trimStart r
    if (leadingWord t).isEmpty then none
    else (afterParameters? (trimStart (afterWord t))).map fun u => (leadingWord t, u)
  | r => if (leadingWord r).isEmpty then none else some (leadingWord r, afterWord r)

def lambda? (s : List Char) : Option (List Char × List Char) :=
  match parameter? s with
  | some (name, r) =>
    match trimStart r with
    | '=' :: '>' :: body => some (name, trimStart body)
    | _ => none
  | none => none

/-- The calls that a lambda makes on its parameter, and whether the last one was closed. -/
def lambdaRun (s : List Char) : CallRun :=
  match lambda? s with
  | some (name, body) =>
    if leadingWord body = name then readCalls (afterWord body) else ⟨[], s, true⟩
  | none => ⟨[], s, true⟩

/-- The calls of a lambda at some depth of nesting; there are none below the limit. -/
def lambdaCalls (limit depth : Nat) (raw : String) : List MethodCall :=
  if limit ≤ depth then [] else (lambdaRun raw.toList).calls

end HostPlan.Source
