import HostPlan.Plan.Script
import HostPlan.Proofs.Text.Lines
/-!
The lines of a script: those that guard it, then those of one operation after the other. An
operation is introduced, sends its here document, and is concluded.
-/
namespace HostPlan.Script

open Text

theorem lines_render (withRemarks : Bool) (os : List Operation) :
    lines (render withRemarks os) =
      (guard os).flatMap lines ++ (os.flatMap fun o => (operationLines withRemarks o).flatMap lines) ++
        [("echo \"Done.\"").toList, []] := by
  have ended : render withRemarks os = joined "\n" (pieces withRemarks os) ++ "\n" ++ "" := by
    rw [render, String.append_empty]
  rw [ended, lines_append, lines_joined (by simp [pieces, guard]), pieces, List.flatMap_append,
    List.flatMap_append, List.flatMap_assoc]
  simp [lines, cutAt]

/-- What stands before the command of an operation is complete. -/
def introduction (withRemarks : Bool) (o : Operation) : List String :=
  match o.category with
  | .project =>
    [announce ("Creating project: " ++ o.displayName), "PROJECT_UUID=$(" ++ call "-s -X" o] ++ headers
  | _ =>
    (if withRemarks then remarks o else []) ++
      [announce ("Creating " ++ o.category.name ++ ": " ++ o.displayName), call "-X" o] ++ headers

/-- The line that opens the here document. -/
def opening (o : Operation) : String :=
  match o.category with
  | .project => "  -d @- <<EOF | " ++ keepUuid
  | _ => "  -d @- <<EOF"

/-- What stands behind the here document. -/
def conclusion (o : Operation) : List String :=
  match o.category with
  | .project =>
    [")", "if [ -z \"$PROJECT_UUID\" ]; then",
     "  echo \"Error: project creation returned no uuid\" >&2", "  exit 1", "fi",
     "echo \"Project uuid: $PROJECT_UUID\"", ""]
  | _ => ["echo", ""]

theorem operationLines_eq (withRemarks : Bool) (o : Operation) :
    operationLines withRemarks o =
      introduction withRemarks o ++ opening o :: (body o ++ "EOF" :: conclusion o) := by
  unfold operationLines introduction opening conclusion
  cases h : o.category <;> simp [h, projectBlock, block]

theorem lines_opening (o : Operation) : lines (opening o) = [(opening o).toList] := by
  have two : opening o = "  -d @- <<EOF | " ++ keepUuid ∨ opening o = "  -d @- <<EOF" := by
    unfold opening
    cases o.category <;> simp
  refine cutAt_of_not_mem ?_
  rcases two with h | h
  · rw [h]
    decide
  · rw [h]
    decide

end HostPlan.Script
