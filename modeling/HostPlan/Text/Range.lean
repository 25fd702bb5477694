/-!
Sets of code points given as ranges, the shape in which the character tables of this library are
written.
-/
namespace HostPlan.Text

/-- A closed range of code points. -/
abbrev Range := Nat × Nat

/-- Some range of the table holds the code point. -/
def inRanges (table : List Range) (n : Nat) : Bool :=
  table.any fun r => decide (r.1 ≤ n) && decide (n ≤ r.2)

theorem inRanges_iff (table : List Range) (n : Nat) :
    inRanges table n = true ↔ ∃ r ∈ table, r.1 ≤ n ∧ n ≤ r.2 := by
  simp [inRanges]

end HostPlan.Text
