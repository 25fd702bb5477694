import HostPlan.Declaration.Assembly
import HostPlan.Plan.Build
import HostPlan.Proofs.Plan.Script
/-!
Remarks in a script. With remarks a script has some lines more. These are comments if no remark
holds a line break in front of anything but a new comment, and only then: a name with a line break
in it brings a command of its own into the script.
-/
namespace HostPlan.Script

open Text

/-- A line on which the shell does not act, outside of quotes and here documents. -/
def isComment (line : List Char) : Bool := line.head? == some '#'

/-- The second list is the first one without some of its comments. -/
inductive LeavesOutComments : List (List Char) → List (List Char) → Prop where
  | nil : LeavesOutComments [] []
  | keep (line : List Char) {a b : List (List Char)} :
    LeavesOutComments a b → LeavesOutComments (line :: a) (line :: b)
  | leave {line : List Char} {a b : List (List Char)} :
    isComment line = true → LeavesOutComments a b → LeavesOutComments (line :: a) b

namespace LeavesOutComments

variable {a b : List (List Char)}

theorem refl (a : List (List Char)) : LeavesOutComments a a := by
  induction a with
  | nil => exact .nil
  | cons line a ih => exact .keep line ih

theorem append {c d : List (List Char)} (first : LeavesOutComments a b)
    (second : LeavesOutComments c d) : LeavesOutComments (a ++ c) (b ++ d) := by
  induction first with
  | nil => exact second
  | keep line _ ih => exact .keep line ih
  | leave comment _ ih => exact .leave comment ih

theorem of_comments (h : ∀ line ∈ a, isComment line = true) : LeavesOutComments a [] := by
  induction a with
  | nil => exact .nil
  | cons line a ih =>
    exact .leave (h line List.mem_cons_self) (ih fun l hl => h l (List.mem_cons_of_mem line hl))

/-- All other lines stay. -/
theorem filter_eq (h : LeavesOutComments a b) :
    a.filter (fun line => !isComment line) = b.filter fun line => !isComment line := by
  induction h with
  | nil => rfl
  | keep line _ ih => rw [List.filter_cons, List.filter_cons, ih]
  | leave comment _ ih => rw [List.filter_cons, comment, ih]; rfl

end LeavesOutComments

/-- Every line of the text behind its first one is a comment. -/
def Contained (s : String) : Prop := ∀ line ∈ (lines s).tail, isComment line = true

/-- No remark on the operation leaves its comment. -/
structure Discreet (o : Operation) : Prop where
  note : ∀ s, o.note = some s → Contained s
  environment : ∀ e ∈ o.environment, Contained (e.1 ++ "=" ++ e.2)

/-- The lines that the remarks on an operation add to a script. The operation that creates the
project has none. -/
def addedLines (o : Operation) : List (List Char) :=
  match o.category with
  | .project => []
  | _ => (remarks o).flatMap lines

theorem lines_block (o : Operation) :
    (operationLines true o).flatMap lines =
      addedLines o ++ (operationLines false o).flatMap lines := by
  unfold operationLines addedLines
  cases o.category <;> simp [block]

/-- The first line of a remark is a comment whatever the remark says. -/
theorem comments_iff_contained (opening : String) (start : isComment opening.toList = true)
    (whole : '\n' ∉ opening.toList) (s : String) :
    (∀ line ∈ lines (opening ++ s), isComment line = true) ↔ Contained s := by
  obtain ⟨first, rest, cut, opened⟩ := cutAt_append_of_not_mem whole s.toList
  have head : isComment (opening.toList ++ first) = true := by
    cases h : opening.toList with
    | nil => rw [h] at start; cases start
    | cons c r => rw [h] at start; exact start
  rw [Contained, lines, lines, String.toList_append, opened, cut]
  simp [head]

theorem comments_variable_iff (e : String × String) :
    (∀ line ∈ lines ("#   " ++ e.1 ++ "=" ++ e.2), isComment line = true) ↔
      Contained (e.1 ++ "=" ++ e.2) := by
  have whole := comments_iff_contained "#   " (by decide) (by decide)
    (e.1 ++ "=" ++ e.2)
  simpa only [String.append_assoc] using whole

theorem comments_remarks_iff (o : Operation) :
    (∀ line ∈ (remarks o).flatMap lines, isComment line = true) ↔ Discreet o := by
  have title : ∀ line ∈ lines "# Runtime environment (configure in Coolify):",
      isComment line = true := by decide
  have parts : Discreet o ↔ (∀ s, o.note = some s → Contained s) ∧
      ∀ e ∈ o.environment, Contained (e.1 ++ "=" ++ e.2) :=
    ⟨fun discreet => ⟨discreet.note, discreet.environment⟩, fun both => ⟨both.1, both.2⟩⟩
  rw [remarks, List.flatMap_append, List.forall_mem_append, parts]
  refine and_congr ?note ?environment
  case note =>
    split
    · simp [*]
    · have blank : Contained "" := fun line h => by cases h
      simp [*]
    · rename_i s _ same
      simpa [same] using comments_iff_contained "# " (by decide) (by decide) s
  case environment =>
    cases o.environment with
    | nil => simp
    | cons e rest =>
      simp only [List.isEmpty_cons, Bool.false_eq_true, if_false, List.flatMap_cons,
        List.forall_mem_append, List.forall_mem_flatMap, List.forall_mem_map, List.forall_mem_cons,
        comments_variable_iff, List.map_cons]
      exact and_iff_right title

theorem addedLines_comments_iff (o : Operation) (h : o.category ≠ .project) :
    (∀ line ∈ addedLines o, isComment line = true) ↔ Discreet o := by
  rw [← comments_remarks_iff]
  unfold addedLines
  split
  · exact absurd ‹_› h
  · rfl

theorem addedLines_project {o : Operation} (h : o.category = .project) : addedLines o = [] := by
  rw [addedLines, h]

theorem countP_flatMap_append {α β : Type} (p : β → Bool) (f g : α → List β) (xs : List α) :
    (xs.flatMap fun x => f x ++ g x).countP p =
      (xs.flatMap f).countP p + (xs.flatMap g).countP p := by
  induction xs with
  | nil => rfl
  | cons x xs ih =>
    simp only [List.flatMap_cons, List.countP_append, ih]
    omega

/-- Lines of remarks can be left out only if they are comments, since no other line is. -/
theorem comments_of_leavesOut {os : List Operation}
    (h : LeavesOutComments (lines (render true os)) (lines (render false os))) :
    ∀ o ∈ os, ∀ line ∈ addedLines o, isComment line = true := by
  have kept := congrArg List.length h.filter_eq
  rw [← List.countP_eq_length_filter, ← List.countP_eq_length_filter, lines_render, lines_render]
    at kept
  simp only [lines_block, List.countP_append, countP_flatMap_append] at kept
  have none : (os.flatMap addedLines).countP (fun line => !isComment line) = 0 := by omega
  rw [List.countP_eq_zero] at none
  intro o ho line hline
  simpa using none line (List.mem_flatMap.2 ⟨o, ho, hline⟩)

theorem leavesOut_of_comments {os : List Operation}
    (h : ∀ o ∈ os, ∀ line ∈ addedLines o, isComment line = true) :
    LeavesOutComments (lines (render true os)) (lines (render false os)) := by
  rw [lines_render, lines_render]
  refine .append (.append (.refl _) ?_) (.refl _)
  induction os with
  | nil => exact .nil
  | cons o os ih =>
    rw [List.flatMap_cons, List.flatMap_cons, lines_block]
    have own := LeavesOutComments.of_comments (h o List.mem_cons_self)
    exact .append (.append own (.refl _)) (ih fun o' ho => h o' (List.mem_cons_of_mem o ho))

/-- Leaving comments out of a script with remarks gives the script without them exactly if no
remark leaves its comment. -/
theorem remarks_inert_iff (os : List Operation) :
    LeavesOutComments (lines (render true os)) (lines (render false os)) ↔
      ∀ o ∈ os, o.category ≠ .project → Discreet o := by
  constructor
  · intro h o ho resource
    exact (addedLines_comments_iff o resource).1 (comments_of_leavesOut h o ho)
  · intro h
    refine leavesOut_of_comments fun o ho => ?_
    by_cases project : o.category = .project
    · rw [addedLines_project project]
      exact List.forall_mem_nil _
    · exact (addedLines_comments_iff o project).2 (h o ho project)

namespace Leak

/-- A program that names a container on two lines. -/
def program : List Char := "builder.AddContainer(\"cache\nreboot\", \"redis\");".toList

def container : Service := { name := "cache\nreboot", image := some "redis" }

def model : Model := { services := [container] }

theorem model_program :
    (Declaration.readProgram program).toOption.map Assembly.model = some model := by
  decide +kernel

/-- The end of the remark, on a line of its own. -/
def command : List Char := "reboot (custom)".toList

theorem command_added : command ∈ addedLines (Resource.operation model {} (.service container)) := by
  decide

end Leak

open Leak in
/-- The second line of the name is a command of the script, and only where remarks are wanted. -/
theorem broken_name_leaves_remark :
    ∃ a, Declaration.readProgram program = .ok a ∧
      ¬ LeavesOutComments (lines (render true (a.model.operations {})))
        (lines (render false (a.model.operations {}))) := by
  have read := model_program
  cases h : Declaration.readProgram program with
  | error e =>
    rw [h] at read
    cases read
  | ok a =>
    rw [h] at read
    refine ⟨a, rfl, fun inert => ?_⟩
    rw [Option.some.inj read] at inert
    have comment := comments_of_leavesOut inert _ List.mem_cons_self command command_added
    exact absurd comment (by decide)

end HostPlan.Script
