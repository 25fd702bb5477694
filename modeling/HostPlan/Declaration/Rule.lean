import HostPlan.Declaration.Setting
import HostPlan.Source.Lambda
/-!
Rules by which method calls fill a record. A table gives each method its rule; the calls of a chain
are applied in order, and a call without a rule changes nothing. A rule may also hand the lambda in
its arguments back to the table, which goes on for a limited number of levels.
-/
namespace HostPlan.Declaration

open Source

inductive Rule (ρ : Type) where
  | update (change : MethodCall → Reading (ρ → ρ))
  | replay

namespace Rule

variable {ρ α : Type}

/-- The last value that is given counts. -/
def overwrite (read : MethodCall → Option α) (write : α → ρ → ρ) : Rule ρ :=
  .update fun c => .ok (match read c with
    | some v => write v
    | none => id)

/-- The last call counts, with a value or without one. -/
def reset (read : MethodCall → Reading (Option α)) (write : Option α → ρ → ρ) : Rule ρ :=
  .update fun c => (read c).map write

/-- Every value is added to a list. -/
def accumulate (read : MethodCall → Reading (Option α)) (add : α → ρ → ρ) : Rule ρ :=
  .update fun c => (read c).map fun
    | some v => add v
    | none => id

/-- Any call changes the record in the same way. -/
def always (change : ρ → ρ) : Rule ρ := .update fun _ => .ok change

end Rule

abbrev Rules (ρ : Type) := String → Option (Rule ρ)

def applyCall {ρ : Type} (rules : Rules ρ) : Nat → ρ → MethodCall → Reading ρ
  | levels, r, c =>
    match rules c.method, levels with
    | none, _ => .ok r
    | some (.update change), _ => (change c).map (· r)
    | some .replay, 0 => .ok r
    | some .replay, levels + 1 =>
      (lambdaRun c.rawArgs.toList).calls.foldlM (applyCall rules levels) r

/-- The record after a list of calls, read at some depth inside lambdas. -/
def applyCalls {ρ : Type} (rules : Rules ρ) (depth : Nat) (calls : List MethodCall) (r : ρ) :
    Reading ρ :=
  calls.foldlM (applyCall rules (maxLambdaDepth - depth)) r

end HostPlan.Declaration
