import HostPlan.Proofs.Deploy.Platform
/-!
The directory of an application inside its repository. The path of an application may start with
steps to the same directory and to the one above. One such step is taken away, and the others stay:
a path with two of them leads out of the base path, in a plan as in a deployment.
-/
namespace HostPlan.Application

/-- A step that a path may start with. -/
inductive Step where
  | same
  | up
deriving DecidableEq, Repr

def Step.text : Step → List Char
  | .same => "./".toList
  | .up => "../".toList

/-- A path behind some steps. -/
def behind (steps : List Step) (path : List Char) : List Char :=
  steps.flatMap Step.text ++ path

/-- A path into a directory below, which no step stands in front of. -/
structure Inward (path : List Char) : Prop where
  filled : path ≠ []
  clean : ∀ s : Step, ¬ s.text <+: path

/-- A path inside the base path, if there is one. -/
def below (base : Scalar) (path : List Char) : Scalar :=
  if base.isFilled then .text (base.display ++ "/" ++ String.ofList path)
  else .text (String.ofList path)

section Paths

variable {steps : List Step} {path : List Char}

theorem withoutStep_step (s : Step) (path : List Char) : withoutStep (s.text ++ path) = path := by
  cases s <;> rfl

theorem withoutStep_of_inward (inward : Inward path) : withoutStep path = path := by
  unfold withoutStep
  split
  · rename_i r
    exact absurd ⟨r, rfl⟩ (inward.clean .same)
  · rename_i r
    exact absurd ⟨r, rfl⟩ (inward.clean .up)
  · rfl

/-- The first step goes, the others stay. -/
theorem withoutStep_behind (inward : Inward path) :
    withoutStep (behind steps path) = behind steps.tail path := by
  cases steps with
  | nil => exact withoutStep_of_inward inward
  | cons s rest =>
    rw [behind, List.flatMap_cons, List.append_assoc, withoutStep_step]
    rfl

theorem length_le_behind (steps : List Step) (path : List Char) :
    steps.length + path.length ≤ (behind steps path).length := by
  induction steps with
  | nil => simp [behind]
  | cons s rest ih =>
    have one : 1 ≤ s.text.length := by cases s <;> decide
    have split : behind (s :: rest) path = s.text ++ behind rest path := by simp [behind]
    rw [split, List.length_append, List.length_cons]
    omega

theorem behind_eq_iff : behind steps path = path ↔ steps = [] := by
  constructor
  · intro same
    have length := length_le_behind steps path
    rw [same] at length
    exact List.length_eq_zero_iff.1 (by omega)
  · rintro rfl
    rfl

theorem below_inj {base : Scalar} {p q : List Char} : below base p = below base q ↔ p = q := by
  constructor
  · intro same
    unfold below at same
    split at same
    · have texts := congrArg String.toList (Scalar.text.inj same)
      simpa using texts
    · have texts := congrArg String.toList (Scalar.text.inj same)
      simpa using texts
  · rintro rfl
    rfl

theorem isFilled_below (base : Scalar) (filled : path ≠ []) :
    (below base path).isFilled = true := by
  unfold below
  split <;> simp [Scalar.isFilled, filled]

variable {a : Application}

theorem directory_behind (inward : Inward path)
    (told : a.sourcePath = some (String.ofList (behind steps path))) (base : Scalar) :
    a.directory base = below base (behind steps.tail path) := by
  have filled (ss : List Step) : behind ss path ≠ [] := by simp [behind, inward.filled]
  have given : String.ofList (behind steps path) ≠ "" := by simpa using filled steps
  have whole := isFilled_below base (filled steps.tail)
  simp only [directory, told, String.toList_ofList, withoutStep_behind inward, Scalar.orElse]
  cases known : base.isFilled with
  | true => simp_all [below]
  | false =>
    have blank : (Scalar.text "").isFilled = false := rfl
    simp_all [below]

theorem directory_eq_below_iff (inward : Inward path)
    (told : a.sourcePath = some (String.ofList (behind steps path))) (base : Scalar) :
    a.directory base = below base path ↔ steps.length ≤ 1 := by
  rw [directory_behind inward told, below_inj, behind_eq_iff]
  cases steps <;> simp

theorem ofScalar_inj {v w : Scalar} : Value.ofScalar v = Value.ofScalar w ↔ v = w := by
  constructor
  · intro same
    have scalars := congrArg Value.scalar? same
    rw [Value.scalar?_ofScalar, Value.scalar?_ofScalar] at scalars
    exact Option.some.inj scalars
  · rintro rfl
    rfl

/-- What an application from a repository is created with. -/
theorem directory_payload {repository : Option Repository} {r : Repository}
    (source : source? repository = some r) (filled : (a.directory r.basePath).isFilled = true)
    (target : Target) (instant buildPack : Scalar) :
    Entries.get? "base_directory" (a.payload target instant repository buildPack) =
      some (a.directory r.basePath) := by
  by_cases hidden : r.app.isFilled <;>
    simp [payload, source, repositoryFields, commonFields, Target.payload, Entries.get?_cons, hidden,
      filled]

end Paths

/-- Of the steps in front of a path the first one goes and no other, in a plan as in a deployment.
So the directory is the one inside the base path if and only if there is at most one step. -/
theorem directory_inside_iff (a : Application) (steps : List Step) (path : List Char)
    (inward : Inward path) (told : a.sourcePath = some (String.ofList (behind steps path))) :
    (∀ base, a.directory base = below base (behind steps.tail path)) ∧
    (∀ base, a.directory base = below base path ↔ steps.length ≤ 1) ∧
    (∀ (m : Model) (o : Options) (r : Repository), a ∈ m.applications →
      source? o.repository = some r →
      ∃ op ∈ m.operations o, op = (Resource.application a).operation m o ∧
        (Entries.get? "base_directory" op.payload = some (below r.basePath path) ↔
          steps.length ≤ 1)) ∧
    ∀ (client : Deploy.Client) (s : Deploy.Settings) (m : Model) (r : Repository) (i : Nat)
      (c : Remote.Call), m.resources[i]? = some (.application a) →
      source? s.repository = some r → (i + 1, c) ∈ (client.deployment s m).2.calls →
      ∃ body, c.body? = some body ∧
        (body.field "base_directory" = .ofScalar (below r.basePath path) ↔ steps.length ≤ 1) := by
  have law := directory_eq_below_iff inward told
  have filled (base : Scalar) : (a.directory base).isFilled = true := by
    rw [directory_behind inward told]
    exact isFilled_below base (by simp [behind, inward.filled])
  refine ⟨directory_behind inward told, law, ?plan, ?deployment⟩
  case plan =>
    intro m o r mem source
    have planned : Resource.application a ∈ m.resources := by simp [Model.resources, mem]
    refine ⟨_, ?_, rfl, ?_⟩
    · exact List.mem_append_right _ (List.mem_map_of_mem planned)
    · simp only [Resource.operation]
      rw [directory_payload source (filled r.basePath), Option.some.injEq, law]
  case deployment =>
    intro client s m r i c place source asked
    have created := (Deploy.mem_deployment_calls client s m place c).1 asked
    cases Deploy.call?_of_creation? created
    refine ⟨_, rfl, ?_⟩
    rw [Deploy.field_toValue, directory_payload source (filled r.basePath), Option.map_some,
      Option.getD_some, ofScalar_inj, law]

namespace Sibling

def application : Application where
  name := "web"
  sourcePath := some "../../web"

def repository : Repository where
  location := .text "https://example.org/shop"
  basePath := .text "apps"

theorem inward : Inward "web".toList where
  filled := by decide
  clean := fun s => by cases s <;> decide

end Sibling

open Sibling in
/-- A path with a step in front of it stays inside the base path. -/
theorem neighbour_inside :
    Inward "web".toList ∧ behind [.up] "web".toList = "../web".toList ∧
    ({ application with sourcePath := some "../web" }).directory repository.basePath =
      .text "apps/web" :=
  let neighbour := { application with sourcePath := some "../web" }
  ⟨inward, rfl,
    ((directory_inside_iff neighbour [.up] "web".toList inward rfl).2.1 repository.basePath).2
      (by decide)⟩

open Sibling in
/-- A path with two steps in front of it leads out of the base path. -/
theorem sibling_outside :
    Inward "web".toList ∧
    application.sourcePath = some (String.ofList (behind [.up, .up] "web".toList)) ∧
    application.directory repository.basePath = .text "apps/../web" ∧
    application.directory .null = .text "../web" :=
  ⟨inward, rfl, by decide, by decide⟩

end HostPlan.Application
