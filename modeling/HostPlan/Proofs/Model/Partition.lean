import HostPlan.Model.Link
import HostPlan.Proofs.Model.Validation
/-!
What becomes of the targets that applications and services refer to. Each of them makes one edge,
when something other than an application answers to it; or it is passed over, when only applications
do; or it is complained about, when nobody does. Edges and complaints stand in the order of the
targets.
-/
namespace HostPlan

/-- What becomes of one target. -/
inductive Fate where
  | edge (r : Reference)
  | silent
  | complaint (line : String)
deriving DecidableEq

namespace Fate

def edge? : Fate → Option Reference
  | edge r => some r
  | _ => none

def line? : Fate → Option String
  | complaint line => some line
  | _ => none

theorem length_eq (fates : List Fate) :
    fates.length = (fates.filterMap edge?).length + fates.count .silent +
      (fates.filterMap line?).length := by
  induction fates with
  | nil => rfl
  | cons f fates ih =>
    cases f <;>
      simp only [List.length_cons, List.filterMap_cons, edge?, line?, List.count_cons, ih] <;>
      simp <;> omega

end Fate

namespace Model

/-- The first resource that answers to the name, among databases, services and storage in this
order. -/
def Means (m : Model) (name : String) (r : Resource) : Prop :=
  ∃ before after,
    m.databases.map .database ++ m.services.map .service ++ m.storage.map .storage =
      before ++ r :: after ∧
    r.Answers name ∧ ∀ x ∈ before, ¬ x.Answers name

/-- What a target of this owner yields. -/
inductive Yields (m : Model) : String × String → Fate → Prop
  | edge {owner target : String} {r : Resource} (first : m.Means target r) :
    Yields m (owner, target) (.edge (.to owner r))
  | silent {owner target : String} (nothing : ¬ ∃ r, m.Means target r)
    (application : ∃ a ∈ m.applications, (Resource.application a).Answers target) :
    Yields m (owner, target) .silent
  | complaint {owner target : String} (nobody : ¬ m.Has target) :
    Yields m (owner, target) (.complaint ("Unresolved reference in " ++ owner ++ ": " ++ target))

/-- All targets with their owners, those of applications first. -/
def targets (m : Model) : List (String × String) :=
  (m.applications.flatMap fun a => a.references.map fun t => (a.name, t)) ++
    m.services.flatMap fun s => s.references.map fun t => (s.name, t)

def fate (m : Model) (o : String × String) : Fate :=
  match m.resolve? o.2 with
  | some r => .edge (.to o.1 r)
  | none =>
    if m.Has o.2 then .silent
    else .complaint ("Unresolved reference in " ++ o.1 ++ ": " ++ o.2)

section Fates

variable {m : Model} {r : Resource} {name owner target : String} {o : String × String}
  {f : Fate}

theorem means_iff : m.Means name r ↔ m.resolve? name = some r := by
  rw [resolve?, List.find?_eq_some_iff_append, Resource.answersTo_iff]
  constructor
  · rintro ⟨before, after, split, answers, first⟩
    refine ⟨answers, before, after, split, fun x hx => ?_⟩
    have other := first x hx
    rw [← Resource.answersTo_iff] at other
    simpa using other
  · rintro ⟨answers, before, after, split, first⟩
    refine ⟨before, after, split, answers, fun x hx => ?_⟩
    rw [← Resource.answersTo_iff]
    simpa using first x hx

theorem has_of_means (h : m.Means name r) : m.Has name := by
  obtain ⟨before, after, split, answers, -⟩ := h
  refine ⟨r, m.perm_named.mem_iff.1 (List.mem_append_left _ ?_), answers⟩
  rw [backing, split]
  exact List.mem_append_right before List.mem_cons_self

/-- A name that nothing but applications answers to. -/
theorem has_of_resolve?_eq_none (h : m.resolve? name = none) :
    m.Has name ↔ ∃ a ∈ m.applications, (Resource.application a).Answers name := by
  rw [resolve?, List.find?_eq_none] at h
  constructor
  · rintro ⟨r, hr, answers⟩
    rcases List.mem_append.1 (m.perm_named.mem_iff.2 hr) with backs | application
    · exact absurd (Resource.answersTo_iff.2 answers) (h r backs)
    · obtain ⟨a, ha, rfl⟩ := List.mem_map.1 application
      exact ⟨a, ha, answers⟩
  · rintro ⟨a, ha, answers⟩
    exact ⟨.application a, List.mem_append_right _ (List.mem_map_of_mem ha), answers⟩

theorem yields_iff : m.Yields o f ↔ f = m.fate o := by
  obtain ⟨owner, target⟩ := o
  have none_iff : (¬ ∃ r, m.Means target r) ↔ m.resolve? target = none := by
    simp only [means_iff, Option.eq_none_iff_forall_ne_some, not_exists, ne_eq]
  constructor
  · intro h
    cases h with
    | edge first => rw [fate, means_iff.1 first]
    | silent nothing application =>
      have none := none_iff.1 nothing
      rw [fate, none]
      exact (if_pos ((has_of_resolve?_eq_none none).2 application)).symm
    | complaint nobody =>
      have none := none_iff.1 fun ⟨r, first⟩ => nobody (has_of_means first)
      rw [fate, none]
      exact (if_neg nobody).symm
  · rintro rfl
    cases h : m.resolve? target with
    | some r =>
      rw [fate, h]
      exact .edge (means_iff.2 h)
    | none =>
      rw [fate, h]
      by_cases has : m.Has target
      · rw [if_pos has]
        exact .silent (none_iff.2 h) ((has_of_resolve?_eq_none h).1 has)
      · rw [if_neg has]
        exact .complaint has

theorem edge?_outcome (o : String × String) :
    (m.fate o).edge? = (m.resolve? o.2).map (Reference.to o.1) := by
  unfold fate
  split
  · rename_i r found
    rw [found]
    rfl
  · rename_i none
    rw [none]
    split <;> rfl

theorem line?_outcome (o : String × String) :
    (m.fate o).line? = if m.Has o.2 then none
      else some ("Unresolved reference in " ++ o.1 ++ ": " ++ o.2) := by
  unfold fate
  split
  · rename_i r found
    rw [if_pos (has_of_means (means_iff.2 found))]
    rfl
  · split
    · rfl
    · rfl

theorem links_eq (m : Model) : m.links = (m.targets.map m.fate).filterMap Fate.edge? := by
  have walk : m.targets = m.owners.flatMap fun o => o.2.map fun t => (o.1, t) := by
    simp only [targets, owners, List.flatMap_append, List.flatMap_map]
  have edges : Fate.edge? ∘ m.fate = fun o => (m.resolve? o.2).map (Reference.to o.1) :=
    funext edge?_outcome
  rw [List.filterMap_map, edges, walk, List.filterMap_flatMap, links]
  congr 1
  funext o
  rw [linksOf, List.filterMap_map]
  rfl

theorem begins_reference_iff {f : Finding} :
    begins "Unresolved reference in " f.message = true ↔
      ∃ owner target, f = .unresolved .reference owner target := by
  cases f with
  | duplicate name =>
    refine iff_of_false ?_ nofun
    have words : (Finding.duplicate name).message = "Duplicate resource name: " ++ name := rfl
    rw [words, not_begins (i := 0) (c := 'U') (d := 'D') (by simp) (by simp) (by decide)]
    nofun
  | unresolved use owner target =>
    rw [Finding.message_unresolved, ← String.append_assoc]
    cases use with
    | reference =>
      refine iff_of_true ?_ ⟨owner, target, rfl⟩
      have words : "Unresolved " ++ Use.reference.label ++ " in " = "Unresolved reference in " := by
        decide +kernel
      rw [← String.append_assoc, words]
      exact begins_append _ _
    | waitFor =>
      refine iff_of_false ?_ nofun
      have words : Use.waitFor.label = "wait-for target" := rfl
      rw [words, not_begins (i := 11) (c := 'r') (d := 'w') (by simp) (by simp) (by decide)]
      nofun

theorem references_of_mentions (m : Model) :
    m.mentions.filter (fun n => n.use = .reference) =
      m.targets.map fun o => ⟨.reference, o.1, o.2⟩ := by
  have kept (owner : String) (ts : List String) :
      (ts.map (Mention.mk .reference owner)).filter (fun n => n.use = .reference) =
        ts.map (Mention.mk .reference owner) :=
    List.filter_eq_self.2 (by simp)
  have left (owner : String) (ts : List String) :
      (ts.map (Mention.mk .waitFor owner)).filter (fun n => n.use = .reference) = [] :=
    List.filter_eq_nil_iff.2 (by simp)
  simp only [mentions, targets, List.filter_append, List.filter_flatMap, kept, left,
    List.append_nil, List.map_append, List.map_flatMap, List.map_map, Function.comp_def]

theorem complaints_eq (m : Model) :
    (m.findings.map Finding.message).filter (begins "Unresolved reference in ") =
      (m.targets.map m.fate).filterMap Fate.line? := by
  have duplicates : m.duplicates.filter (begins "Unresolved reference in " ∘ Finding.message) = [] :=
    List.filter_eq_nil_iff.2 fun f hf => by
      obtain ⟨name, -, rfl⟩ := List.mem_map.1 hf
      simp [begins_reference_iff]
  have uses : (begins "Unresolved reference in " ∘ Finding.message) ∘ Mention.finding =
      fun n => decide (n.use = .reference) := by
    funext n
    rw [Bool.eq_iff_iff, decide_eq_true_iff]
    refine begins_reference_iff.trans ⟨?_, ?_⟩
    · rintro ⟨owner, target, same⟩
      obtain ⟨use, o, t⟩ := n
      cases same
      rfl
    · intro same
      exact ⟨n.owner, n.target, by rw [Mention.finding, same]⟩
  rw [List.filter_map, findings_eq, List.filter_append, duplicates, List.nil_append, List.filter_map,
    uses, unmet, List.filter_comm, references_of_mentions]
  induction m.targets with
  | nil => rfl
  | cons o rest ih =>
    rw [List.map_cons, List.map_cons, List.filterMap_cons, line?_outcome]
    by_cases has : m.Has o.2
    · rw [List.filter_cons_of_neg (by simpa using has), if_pos has]
      exact ih
    · rw [List.filter_cons_of_pos (by simpa using has), if_neg has, List.map_cons, List.map_cons, ih]
      rfl

end Fates

/-- Every target yields one edge, one complaint or nothing; the edges of the model and the
complaints about it are those of its targets, one after the other. -/
theorem edges_and_complaints_partition (m : Model) :
    (∀ o, ∃! f, m.Yields o f) ∧
    (∃ fates, List.Forall₂ m.Yields m.targets fates ∧
      m.links = fates.filterMap Fate.edge? ∧
      (m.findings.map Finding.message).filter (begins "Unresolved reference in ") =
        fates.filterMap Fate.line? ∧
      m.targets.length = m.links.length + fates.count .silent +
        ((m.findings.map Finding.message).filter (begins "Unresolved reference in ")).length) ∧
    ∀ owner r, (Reference.to owner r).source = owner ∧ (Reference.to owner r).target = r.name ∧
      ((Reference.to owner r).connectionEnv.isSome ↔ ∃ d, r = .database d) := by
  refine ⟨fun o => ⟨m.fate o, yields_iff.2 rfl, fun f => yields_iff.1⟩,
    ⟨m.targets.map m.fate, ?_, links_eq m, complaints_eq m, ?_⟩, fun owner r => ⟨rfl, rfl, ?_⟩⟩
  · rw [List.forall₂_map_right_iff, List.forall₂_same]
    exact fun o _ => yields_iff.2 rfl
  · rw [links_eq, complaints_eq, ← Fate.length_eq, List.length_map]
  · cases r <;> simp [Reference.to]

end Model

end HostPlan
