import Mathlib.Data.Finset.Card
import Mathlib.Data.Finset.Dedup
import HostPlan.Model.Finding
/-!
What the findings about a model say. There are none exactly when no name is given twice and every
name that is used belongs to something; otherwise there is one for every name given once more, and
one for every use of a name that nobody has.
-/
namespace HostPlan

/-- The resource has this name or is bound to a variable of this name. -/
def Resource.Answers (r : Resource) (name : String) : Prop := r.boundTo = some name ∨ r.name = name

/-- Some resource of the model answers to the name. -/
def Model.Has (m : Model) (name : String) : Prop := ∃ r ∈ m.resources, r.Answers name

instance (r : Resource) (name : String) : Decidable (r.Answers name) :=
  inferInstanceAs (Decidable (_ ∨ _))

instance (m : Model) (name : String) : Decidable (m.Has name) :=
  inferInstanceAs (Decidable (∃ r ∈ m.resources, r.Answers name))

section Resolution

variable {m : Model} {r : Resource} {name : String}

theorem Resource.answersTo_iff : r.answersTo name = true ↔ r.Answers name := by
  simp [answersTo, Answers]

theorem Model.perm_named (m : Model) : m.named.Perm m.resources := by
  unfold named backing resources
  apply List.Perm.append_right
  rw [List.append_assoc, List.append_assoc]
  exact List.Perm.append_left _ List.perm_append_comm

theorem Model.resolveAny?_eq_none_iff : m.resolveAny? name = none ↔ ¬ m.Has name := by
  rw [resolveAny?, List.find?_eq_none]
  constructor
  · rintro none ⟨r, hr, answers⟩
    exact none r (m.perm_named.mem_iff.2 hr) (Resource.answersTo_iff.2 answers)
  · intro none r hr answers
    exact none ⟨r, m.perm_named.mem_iff.1 hr, Resource.answersTo_iff.1 answers⟩

end Resolution

section Repetition

/-- Every name that is not new is told once more. -/
theorem length_repeated (seen names : List String) :
    (repeated seen names).length + (names.toFinset \ seen.toFinset).card = names.length := by
  induction names generalizing seen with
  | nil => simp [repeated]
  | cons n names ih =>
    rw [repeated, List.toFinset_cons]
    split
    · rename_i old
      rw [Finset.insert_sdiff_of_mem _ (List.mem_toFinset.2 old), List.length_cons,
        List.length_cons]
      have rest := ih seen
      omega
    · rename_i new
      have rest := ih (n :: seen)
      have again : n ∉ names.toFinset \ (n :: seen).toFinset := by simp
      have split : insert n names.toFinset \ seen.toFinset =
          insert n (names.toFinset \ (n :: seen).toFinset) := by
        ext x
        by_cases hx : x = n
        · subst hx
          simpa using new
        · simp [hx]
      rw [split, Finset.card_insert_of_notMem again, List.length_cons]
      omega

theorem repeated_eq_nil_iff (names : List String) : repeated [] names = [] ↔ names.Nodup := by
  have counted := length_repeated [] names
  rw [List.toFinset_nil, Finset.sdiff_empty, List.card_toFinset] at counted
  rw [← List.length_eq_zero_iff, ← List.dedup_eq_self]
  constructor
  · intro none
    exact (List.dedup_sublist names).eq_of_length (by omega)
  · intro distinct
    rw [distinct] at counted
    omega

end Repetition

/-- One use of a name: what for, by whom, and the name. -/
structure Mention where
  use : Use
  owner : String
  target : String
deriving DecidableEq, Repr

/-- What is found when nobody has the name. -/
def Mention.finding (n : Mention) : Finding := .unresolved n.use n.owner n.target

namespace Model

/-- All uses of names: what each application refers to and waits for, and what each service refers
to. -/
def mentions (m : Model) : List Mention :=
  (m.applications.flatMap fun a =>
    a.references.map (Mention.mk .reference a.name) ++
      (a.waitFor.getD []).map (Mention.mk .waitFor a.name)) ++
    m.services.flatMap fun s => s.references.map (Mention.mk .reference s.name)

/-- The uses of names that nobody has. -/
def unmet (m : Model) : List Mention := m.mentions.filter fun n => ¬ m.Has n.target

variable {m : Model}

theorem unresolved_eq (use : Use) (owner : String) (targets : List String) :
    m.unresolved use owner targets =
      ((targets.map (Mention.mk use owner)).filter fun n => ¬ m.Has n.target).map
        Mention.finding := by
  have same : (fun t => (m.resolveAny? t).isNone) = fun t => decide (¬ m.Has t) := by
    funext t
    rw [Bool.eq_iff_iff, Option.isNone_iff_eq_none, resolveAny?_eq_none_iff, decide_eq_true_iff]
  rw [unresolved, same, List.filter_map, List.map_map]
  rfl

theorem findings_eq (m : Model) : m.findings = m.duplicates ++ m.unmet.map Mention.finding := by
  rw [findings, unmet, mentions, List.append_assoc]
  simp only [unresolved_eq, List.filter_append, List.filter_flatMap, List.map_append,
    List.map_flatMap]

end Model

section Lines

/-- The line begins with the words. -/
def begins (words line : String) : Bool := words.toList.isPrefixOf line.toList

variable {words line rest : String}

theorem begins_iff : begins words line = true ↔ words.toList <+: line.toList :=
  List.isPrefixOf_iff_prefix

theorem begins_append (words rest : String) : begins words (words ++ rest) = true := by
  rw [begins_iff, String.toList_append]
  exact List.prefix_append ..

theorem not_begins {i : Nat} {c d : Char} (here : words.toList[i]? = some c)
    (there : line.toList[i]? = some d) (other : c ≠ d) : begins words (line ++ rest) = false := by
  rw [← Bool.not_eq_true, begins_iff, String.toList_append]
  rintro ⟨tail, split⟩
  have same := congrArg (fun t => t[i]?) split
  have front : i < words.toList.length := (List.getElem?_eq_some_iff.1 here).1
  have front' : i < line.toList.length := (List.getElem?_eq_some_iff.1 there).1
  simp only [List.getElem?_append_left front, List.getElem?_append_left front', here, there] at same
  exact other (Option.some.inj same)

end Lines

namespace Finding

theorem message_unresolved (use : Use) (owner target : String) :
    (unresolved use owner target).message =
      "Unresolved " ++ (use.label ++ (" in " ++ (owner ++ (": " ++ target)))) := by
  unfold message
  simp only [String.append_assoc]

theorem begins_duplicate_iff {f : Finding} :
    begins "Duplicate resource name: " f.message = true ↔ ∃ name, f = .duplicate name := by
  cases f with
  | duplicate name => exact iff_of_true (begins_append _ name) ⟨name, rfl⟩
  | unresolved use owner target =>
    refine iff_of_false ?_ nofun
    rw [message_unresolved,
      not_begins (i := 0) (c := 'D') (d := 'U') (by simp) (by simp) (by decide)]
    nofun

theorem begins_unresolved_iff {f : Finding} :
    begins "Unresolved " f.message = true ↔ ∃ n : Mention, f = n.finding := by
  cases f with
  | duplicate name =>
    refine iff_of_false ?_ nofun
    have words : (duplicate name).message = "Duplicate resource name: " ++ name := rfl
    rw [words, not_begins (i := 0) (c := 'U') (d := 'D') (by simp) (by simp) (by decide)]
    nofun
  | unresolved use owner target =>
    refine iff_of_true ?_ ⟨⟨use, owner, target⟩, rfl⟩
    rw [message_unresolved]
    exact begins_append _ _

end Finding

namespace Model

variable {m : Model}

theorem duplicates_eq_nil_iff : m.duplicates = [] ↔ (m.resources.map Resource.name).Nodup := by
  rw [duplicates, List.map_eq_nil_iff, repeated_eq_nil_iff]
  exact (m.perm_named.map Resource.name).nodup_iff

theorem unmet_eq_nil_iff :
    m.unmet = [] ↔
      (∀ a ∈ m.applications, (∀ t ∈ a.references, m.Has t) ∧ ∀ t ∈ a.waitFor.getD [], m.Has t) ∧
        ∀ s ∈ m.services, ∀ t ∈ s.references, m.Has t := by
  have told {use : Use} {owner : String} {targets : List String} :
      (∀ n ∈ targets.map (Mention.mk use owner), m.Has n.target) ↔ ∀ t ∈ targets, m.Has t := by
    rw [List.forall_mem_map]
  have met : m.unmet = [] ↔ ∀ n ∈ m.mentions, m.Has n.target := by
    simp [unmet, List.filter_eq_nil_iff]
  rw [met, mentions, List.forall_mem_append]
  simp only [List.mem_flatMap, forall_exists_index, and_imp, forall_comm (α := Mention),
    List.forall_mem_append, told]

/-- The lines about names given twice are those of the first half. -/
theorem begins_duplicate_of_mem {f : Finding} (h : f ∈ m.duplicates) :
    begins "Duplicate resource name: " f.message = true ∧
      begins "Unresolved " f.message = false := by
  obtain ⟨name, -, rfl⟩ := List.mem_map.1 h
  refine ⟨Finding.begins_duplicate_iff.2 ⟨name, rfl⟩, ?_⟩
  rw [← Bool.not_eq_true, Finding.begins_unresolved_iff]
  nofun

theorem begins_unresolved_of_mem {f : Finding} (h : f ∈ m.unmet.map Mention.finding) :
    begins "Duplicate resource name: " f.message = false ∧
      begins "Unresolved " f.message = true := by
  obtain ⟨n, -, rfl⟩ := List.mem_map.1 h
  refine ⟨?_, Finding.begins_unresolved_iff.2 ⟨n, rfl⟩⟩
  rw [← Bool.not_eq_true, Finding.begins_duplicate_iff]
  nofun

theorem countP_duplicate (m : Model) :
    (m.findings.map Finding.message).countP (begins "Duplicate resource name: ") +
      (m.resources.map Resource.name).toFinset.card = m.resources.length := by
  have counted := length_repeated [] (m.named.map Resource.name)
  rw [List.toFinset_nil, Finset.sdiff_empty,
    List.toFinset_eq_of_perm _ _ (m.perm_named.map Resource.name), List.length_map,
    m.perm_named.length_eq] at counted
  have first : m.duplicates.countP (begins "Duplicate resource name: " ∘ Finding.message) =
      m.duplicates.length :=
    List.countP_eq_length.2 fun f hf => (begins_duplicate_of_mem hf).1
  have second : (m.unmet.map Mention.finding).countP
      (begins "Duplicate resource name: " ∘ Finding.message) = 0 :=
    List.countP_eq_zero.2 fun f hf => by simp [(begins_unresolved_of_mem hf).1]
  rw [List.countP_map, findings_eq, List.countP_append, first, second, duplicates, List.length_map]
  exact counted

theorem filter_unresolved (m : Model) :
    (m.findings.map Finding.message).filter (begins "Unresolved ") =
      m.unmet.map fun n => n.finding.message := by
  have first : m.duplicates.filter (begins "Unresolved " ∘ Finding.message) = [] :=
    List.filter_eq_nil_iff.2 fun f hf => by simp [(begins_duplicate_of_mem hf).2]
  have second : (m.unmet.map Mention.finding).filter (begins "Unresolved " ∘ Finding.message) =
      m.unmet.map Mention.finding :=
    List.filter_eq_self.2 fun f hf => (begins_unresolved_of_mem hf).2
  rw [List.filter_map, findings_eq, List.filter_append, first, second, List.nil_append,
    List.map_map]
  rfl

/-- There is nothing to be said about a model exactly when its names are distinct and all targets
belong to a resource; and it is said once for every name beyond the distinct ones, and once for every
use of a name that no resource has. -/
theorem findings_sound_and_complete (m : Model) :
    (m.findings.map Finding.message = [] ↔
      (m.resources.map Resource.name).Nodup ∧
        (∀ a ∈ m.applications,
          (∀ t ∈ a.references, m.Has t) ∧ ∀ t ∈ a.waitFor.getD [], m.Has t) ∧
        ∀ s ∈ m.services, ∀ t ∈ s.references, m.Has t) ∧
    (m.findings.map Finding.message).countP (begins "Duplicate resource name: ") +
      (m.resources.map Resource.name).toFinset.card = m.resources.length ∧
    (m.findings.map Finding.message).filter (begins "Unresolved ") =
      (m.mentions.filter fun n => ¬ m.Has n.target).map fun n => n.finding.message := by
  refine ⟨?_, m.countP_duplicate, m.filter_unresolved⟩
  rw [List.map_eq_nil_iff, findings_eq, List.append_eq_nil_iff, List.map_eq_nil_iff,
    duplicates_eq_nil_iff, unmet_eq_nil_iff]

end Model

end HostPlan
