import Mathlib.Data.List.Infix
/-!
Replacing pieces of a text. The text is read from left to right, and where a piece begins that a
rule names, what the rule gives stands in its place; what has been replaced is not read again.
-/
namespace HostPlan.Text

/-- Each rule says what is replaced and by what. The first rule that fits is used. -/
def replace (rules : List (List Char × List Char)) : List Char → List Char
  | [] => []
  | c :: s =>
    match rules.find? fun rule => rule.1.isPrefixOf (c :: s) with
    | some rule => rule.2 ++ replace rules (s.drop (rule.1.length - 1))
    | none => c :: replace rules s
termination_by s => s.length
decreasing_by
  all_goals simp only [List.length_cons, List.length_drop]
  all_goals omega

variable {rules : List (List Char × List Char)}

@[simp] theorem replace_nil (rules : List (List Char × List Char)) : replace rules [] = [] := by
  rw [replace]

theorem replace_cons {c : Char} {s : List Char} (h : ∀ rule ∈ rules, ¬ rule.1 <+: c :: s) :
    replace rules (c :: s) = c :: replace rules s := by
  have none : (rules.find? fun rule => rule.1.isPrefixOf (c :: s)) = none := by
    simpa [List.find?_eq_none] using fun a b mem => h (a, b) mem
  rw [replace, none]

theorem replace_append {old new s : List Char} (filled : old ≠ [])
    (first : (rules.find? fun rule => rule.1.isPrefixOf (old ++ s)) = some (old, new)) :
    replace rules (old ++ s) = new ++ replace rules s := by
  cases old with
  | nil => exact absurd rfl filled
  | cons c old =>
    rw [List.cons_append] at first
    rw [List.cons_append, replace, first]
    simp

/-- With one rule, a text stays as it is up to the first character that can begin what is
replaced. -/
theorem replace_append_of_not_mem {c : Char} {old new x : List Char} (h : c ∉ x) (s : List Char) :
    replace [(c :: old, new)] (x ++ s) = x ++ replace [(c :: old, new)] s := by
  induction x with
  | nil => rfl
  | cons d x ih =>
    have other : ∀ rule ∈ [(c :: old, new)], ¬ rule.1 <+: d :: (x ++ s) := by
      intro rule hrule prefixed
      obtain rfl := List.mem_singleton.1 hrule
      obtain ⟨rfl, _⟩ := List.cons_prefix_cons.1 prefixed
      exact h List.mem_cons_self
    rw [List.cons_append, replace_cons other, ih fun mem => h (List.mem_cons_of_mem d mem),
      List.cons_append]

end HostPlan.Text
