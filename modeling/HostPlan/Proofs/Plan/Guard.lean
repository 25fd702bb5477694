import HostPlan.Plan.Build
import HostPlan.Proofs.Plan.Mention
import HostPlan.Proofs.Plan.Sending
/-!
The guard of a script. A script asks for exactly those variables on which one of its here documents
depends, except for the project that the script creates itself: that one is assigned before the
first document that depends on it.
-/
namespace HostPlan

namespace Shell

open Text

/-- Another value of the variable makes another text of the document. -/
def DependsOn (v : String) (document : List Char) : Prop :=
  ∃ r r' : String → List Char, (∀ w, w ≠ v → r w = r' w) ∧
    expand r .text document ≠ expand r' .text document

theorem name_injective {p q : Placeholder} (h : p.name = q.name) : p = q := by
  revert h
  cases p <;> cases q <;> decide

section Standing

variable {p q : Placeholder} {t : List Char}

theorem standsIn_placeholder : p.StandsIn (q.text.toList ++ t) ↔ p = q ∨ p.StandsIn t := by
  have inner : '$' ∉ '{' :: (q.name.toList ++ ['}']) := by cases q <;> decide
  have parts : q.text.toList ++ t = '$' :: (('{' :: (q.name.toList ++ ['}'])) ++ t) := by
    rw [q.toList_text, List.cons_append]
  have tail := p.standsIn_append_of_not_mem (t := t) inner
  have whole : p.StandsIn (q.text.toList ++ t) ↔
      p.text.toList <+: q.text.toList ++ t ∨ p.StandsIn (('{' :: (q.name.toList ++ ['}'])) ++ t) := by
    rw [parts]
    exact List.infix_cons_iff
  rw [whole, tail]
  constructor
  · exact Or.imp_left Placeholder.eq_of_begins
  · rintro (rfl | later)
    · exact .inl (List.prefix_append ..)
    · exact .inr later

theorem standsIn_plain {c : Char} {s : List Char} (none : ¬ p.text.toList <+: c :: s) :
    p.StandsIn (c :: s) ↔ p.StandsIn s := by
  have whole : p.StandsIn (c :: s) ↔ p.text.toList <+: c :: s ∨ p.StandsIn s := List.infix_cons_iff
  rw [whole, or_iff_right none]

end Standing

theorem replace_congr {p : Placeholder} {r r' : String → List Char} {s : List Char}
    (same : ∀ w, w ≠ p.name → r w = r' w) (absent : ¬ p.StandsIn s) :
    replace (values r) s = replace (values r') s := by
  induction s using induction_placeholders with
  | nil => rw [replace_nil, replace_nil]
  | placeholder q t ih =>
    obtain ⟨other, rest⟩ := not_or.1 (mt standsIn_placeholder.2 absent)
    have named : q.name ≠ p.name := fun h => other (name_injective h).symm
    rw [replace_placeholder, replace_placeholder, same _ named, ih rest]
  | plain c s none ih =>
    rw [replace_plain r none, replace_plain r' none, ih (mt (standsIn_plain (none p)).2 absent)]

/-- A value that stands for the placeholder and for nothing else. -/
def only (p : Placeholder) (w : String) : List Char := if w = p.name then ['x'] else []

theorem length_replace_only (p : Placeholder) (s : List Char) :
    (replace (values fun _ => []) s).length ≤ (replace (values (only p)) s).length ∧
    (p.StandsIn s →
      (replace (values fun _ => []) s).length < (replace (values (only p)) s).length) := by
  induction s using induction_placeholders with
  | nil => simp
  | placeholder q t ih =>
    rw [replace_placeholder, replace_placeholder, List.nil_append, List.length_append]
    refine ⟨by omega, fun h => ?_⟩
    rcases standsIn_placeholder.1 h with rfl | later
    · have one : (only p p.name).length = 1 := by simp [only]
      omega
    · have grows := ih.2 later
      omega
  | plain c s none ih =>
    rw [replace_plain _ none, replace_plain _ none, List.length_cons, List.length_cons]
    refine ⟨by omega, fun h => ?_⟩
    have grows := ih.2 ((standsIn_plain (none p)).1 h)
    omega

/-- What is escaped for a here document depends on the placeholders that stand in it. -/
theorem dependsOn_escaped (p : Placeholder) (s : List Char) :
    DependsOn p.name (escaped s) ↔ p.StandsIn s := by
  constructor
  · rintro ⟨r, r', same, differ⟩
    by_contra absent
    apply differ
    rw [expand_escaped, expand_escaped, replace_congr same absent]
  · intro h
    refine ⟨fun _ => [], only p, fun w other => (if_neg other).symm, fun equal => ?_⟩
    rw [expand_escaped, expand_escaped] at equal
    have grows := (length_replace_only p s).2 h
    rw [Option.some.inj equal] at grows
    exact Nat.lt_irrefl _ grows

end Shell

namespace Script

open Text Shell

/-- The document that the shell hands on for an operation. -/
def sent (o : Operation) : List Char := ['\n'].intercalate (document o)

theorem dependsOn_sent (p : Placeholder) (o : Operation) :
    DependsOn p.name (sent o) ↔ p.OccursIn o.payload := by
  have printed := Json.standsIn_payload (p := p) Json.calm_indented 0 o.payload []
  rw [List.append_nil, or_iff_left Placeholder.not_standsIn_nil] at printed
  rw [sent, document, intercalate_cutAt, dependsOn_escaped, printed]

/-- The variables that a script asks for: the words of the array on the line that sets it. -/
def demanded (script : String) : List String :=
  match (lines script).findSome? ("required=(".toList.isPrefixOf? ·) with
  | none => []
  | some rest => (cutAt ' ' (rest.takeWhile (· != ')'))).map String.ofList

theorem required_words (os : List Operation) :
    ∀ w ∈ required os, ∀ c ∈ w.toList, c ≠ ' ' ∧ c ≠ ')' ∧ c ≠ '\n' := by
  have calm : ∀ w : String, (w.toList.all fun c => c != ' ' && c != ')' && c != '\n') = true →
      ∀ c ∈ w.toList, c ≠ ' ' ∧ c ≠ ')' ∧ c ≠ '\n' := by
    intro w all c hc
    simpa [and_assoc] using List.all_eq_true.1 all c hc
  intro w hw
  rcases List.mem_append.1 hw with hw | hw
  · have all : (credentials.all fun w => w.toList.all fun c => c != ' ' && c != ')' && c != '\n') =
        true := by
      decide
    exact calm w (List.all_eq_true.1 all w hw)
  · obtain ⟨p, _, rfl⟩ := List.mem_map.1 hw
    cases p <;> exact calm _ (by decide)

/-- The line of the array. -/
def demand (os : List Operation) : String := "required=(" ++ joined " " (required os) ++ ")"

theorem mem_joined {words : List String} {c : Char} (h : c ∈ (joined " " words).toList) :
    c = ' ' ∨ ∃ w ∈ words, c ∈ w.toList := by
  induction words with
  | nil => simp [joined] at h
  | cons w rest ih =>
    cases rest with
    | nil => exact .inr ⟨w, List.mem_cons_self, h⟩
    | cons v rest =>
      simp only [joined, String.toList_append, List.mem_append] at h
      rcases h with (own | blank) | later
      · exact .inr ⟨w, List.mem_cons_self, own⟩
      · exact .inl (List.mem_singleton.1 blank)
      · refine (ih later).imp_right ?_
        rintro ⟨u, hu, hc⟩
        exact ⟨u, List.mem_cons_of_mem w hu, hc⟩

theorem joined_required {os : List Operation} {c : Char}
    (h : c ∈ (joined " " (required os)).toList) : c ≠ ')' ∧ c ≠ '\n' := by
  rcases mem_joined h with rfl | ⟨w, hw, hc⟩
  · decide
  · exact (required_words os w hw c hc).2

theorem lines_demand (os : List Operation) : lines (demand os) = [(demand os).toList] := by
  refine cutAt_of_not_mem fun mem => ?_
  simp only [demand, String.toList_append, List.mem_append] at mem
  rcases mem with (opening | words) | closing
  · exact absurd opening (by decide)
  · exact (joined_required words).2 rfl
  · exact absurd closing (by decide)

/-- The line of the array is all that one guard has and another one has not. -/
theorem guard_eq (os : List Operation) :
    guard os = (guard []).take 4 ++ demand os :: (guard []).drop 5 := rfl

theorem demand_opens (os : List Operation) :
    "required=(".toList.isPrefixOf? (demand os).toList =
      some ((joined " " (required os)).toList ++ [')']) := by
  rw [List.isPrefixOf?_eq_some_iff_append_eq]
  simp [demand]

/-- A script asks for what it requires. -/
theorem demanded_render (withRemarks : Bool) (os : List Operation) :
    demanded (render withRemarks os) = required os := by
  have before : (((guard []).take 4).flatMap lines).findSome?
      ("required=(".toList.isPrefixOf? ·) = none := by decide
  have found : (lines (render withRemarks os)).findSome? ("required=(".toList.isPrefixOf? ·) =
      some ((joined " " (required os)).toList ++ [')']) := by
    rw [lines_render, guard_eq, List.flatMap_append, List.flatMap_cons, lines_demand,
      List.append_assoc, List.append_assoc, List.findSome?_append, before, Option.none_or,
      List.append_assoc, List.singleton_append, List.findSome?_cons, demand_opens]
  have words : ((joined " " (required os)).toList ++ [')']).takeWhile (· != ')') =
      (joined " " (required os)).toList := by
    rw [List.takeWhile_append_of_pos fun c hc => by simpa using (joined_required hc).1]
    simp
  have filled : required os ≠ [] := List.append_ne_nil_of_left_ne_nil (List.cons_ne_nil _ _) _
  have whole : ∀ w ∈ required os, ' ' ∉ w.toList :=
    fun w hw mem => (required_words os w hw ' ' mem).1 rfl
  rw [demanded, found]
  simp only [words, words_joined filled whole]
  simp

theorem mem_usedPlaceholders {p : Placeholder} {os : List Operation} :
    p ∈ usedPlaceholders os ↔
      (∃ o ∈ os, p.OccursIn o.payload) ∧ ¬ (p = .project ∧ createsProject os = true) := by
  have printed := Json.standsIn_payloads (p := p) Json.calm_spaced 0 (os.map Operation.payload) []
  rw [List.append_nil, or_iff_left Placeholder.not_standsIn_nil, List.map_map] at printed
  have held : holds p.text.toList (Json.print Json.spaced 0 (payloads os)) = true ↔
      ∃ o ∈ os, p.OccursIn o.payload := by
    rw [Placeholder.holds_iff_standsIn, payloads]
    exact printed.trans (by simp)
  have unmade : (!(p == .project && createsProject os)) = true ↔
      ¬ (p = .project ∧ createsProject os = true) := by
    rw [Bool.not_eq_true', ← Bool.not_eq_true, Bool.and_eq_true, beq_iff_eq]
  simp only [usedPlaceholders, List.mem_filter, Bool.and_eq_true, held, unmade, p.mem_all, true_and]

theorem mem_demanded {p : Placeholder} {withRemarks : Bool} {os : List Operation} :
    p.name ∈ demanded (render withRemarks os) ↔
      (∃ o ∈ os, DependsOn p.name (sent o)) ∧ ¬ (p = .project ∧ createsProject os = true) := by
  have fresh : p.name ∉ credentials := by cases p <;> decide
  simp only [demanded_render, required, List.mem_append, fresh, false_or, dependsOn_sent]
  rw [← mem_usedPlaceholders]
  exact List.mem_map_of_injective fun p q h => name_injective h

theorem category_operation (m : Model) (o : Options) (r : Resource) :
    (r.operation m o).category ≠ .project := by
  cases r <;> exact nofun

theorem category_projectOperation {o : Options} {c : Operation} (h : o.projectOperation? = some c) :
    c.category = .project := by
  unfold Options.projectOperation? at h
  split at h
  · cases h
    rfl
  · cases h

theorem createsProject_operations (m : Model) (o : Options) :
    createsProject (m.operations o) = true ↔ ∃ c, o.projectOperation? = some c := by
  have others : (m.resources.map (Resource.operation m o)).any (·.category == .project) = false := by
    simp [category_operation]
  rw [createsProject, Model.operations, List.any_append, others, Bool.or_false]
  cases h : o.projectOperation? with
  | none => simp
  | some c => simp [category_projectOperation h]

/-- The operation that creates a project mentions what the name of the project mentions. -/
theorem occursIn_projectOperation {o : Options} {c : Operation} (h : o.projectOperation? = some c)
    (p : Placeholder) : p.OccursIn c.payload ↔ p.StandsIn o.projectName.display.toList := by
  unfold Options.projectOperation? at h
  split at h
  · cases h
    have key : ¬ p.StandsIn "name".toList := Placeholder.not_standsIn_of_not_mem (by decide)
    simp only [Placeholder.OccursIn, List.mem_singleton, exists_eq_left]
    exact or_iff_right key
  · cases h

/-- Before anything else a project is created, and its identifier kept in the variable. -/
def Bootstraps (earlier : List Operation) : Prop :=
  ∃ c rest, earlier = c :: rest ∧ c.category = .project ∧
    ∀ withRemarks, ("PROJECT_UUID=$(" ++ call "-s -X" c) ∈ operationLines withRemarks c

theorem bootstraps_cons {c : Operation} (h : c.category = .project) (rest : List Operation) :
    Bootstraps (c :: rest) :=
  ⟨c, rest, rfl, h, fun withRemarks => by simp [operationLines, h, projectBlock]⟩

/-- An operation that uses the created project comes behind its creation. -/
theorem bootstraps_of_use {m : Model} {o : Options}
    (fresh : ¬ Placeholder.project.StandsIn o.projectName.display.toList)
    (creates : createsProject (m.operations o) = true) {earlier later : List Operation}
    {x : Operation} (place : m.operations o = earlier ++ x :: later)
    (uses : Placeholder.project.OccursIn x.payload) : Bootstraps earlier := by
  obtain ⟨c, hc⟩ := (createsProject_operations m o).1 creates
  rw [Model.operations, hc, Option.toList_some, List.singleton_append] at place
  cases earlier with
  | nil =>
    obtain ⟨rfl, _⟩ := List.cons.inj place
    exact absurd ((occursIn_projectOperation hc _).1 uses) fresh
  | cons first rest =>
    obtain ⟨rfl, _⟩ := List.cons.inj place
    exact bootstraps_cons (category_projectOperation hc) rest

/-- A variable on which a here document depends is demanded at the start of the script, or it is
the project and this has been created before; and nothing is demanded without such a document. -/
theorem demands_what_is_used (m : Model) (o : Options)
    (fresh : ¬ Placeholder.project.StandsIn o.projectName.display.toList) :
    (∀ earlier x later, m.operations o = earlier ++ x :: later →
      (∃ after, lines (render o.withNotes (m.operations o)) =
        (guard (m.operations o) ++ earlier.flatMap (operationLines o.withNotes) ++
            introduction o.withNotes x).flatMap lines ++
          (opening x).toList :: (document x ++ "EOF".toList :: after)) ∧
      ∀ p : Placeholder, DependsOn p.name (sent x) →
        p.name ∈ demanded (render o.withNotes (m.operations o)) ∨
          p = .project ∧ Bootstraps earlier) ∧
    ∀ p : Placeholder, p.name ∈ demanded (render o.withNotes (m.operations o)) →
      ∃ x ∈ m.operations o, DependsOn p.name (sent x) := by
  refine ⟨fun earlier x later place => ⟨?_, fun p uses => ?_⟩, fun p asked => ?_⟩
  · rw [place]
    exact lines_render_split o.withNotes earlier later x
  · have member : x ∈ m.operations o := by
      rw [place]
      exact List.mem_append_right _ List.mem_cons_self
    by_cases made : p = .project ∧ createsProject (m.operations o) = true
    · obtain ⟨rfl, creates⟩ := made
      exact .inr ⟨rfl, bootstraps_of_use fresh creates place ((dependsOn_sent _ x).1 uses)⟩
    · exact .inl (mem_demanded.2 ⟨⟨x, member, uses⟩, made⟩)
  · exact (mem_demanded.1 asked).1

namespace Sample

/-- A database whose name and image look like identifiers that are not known. -/
def shelf : Database :=
  { name := "copy of $\x7bSERVER_UUID\x7d", image := some "$\x7bENVIRONMENT_NAME\x7d" }

def shop : Model := { databases := [shelf] }

def wishes : Options :=
  { projectName := .text "shop", server := .text "srv", environmentName := .text "test" }

theorem nameless : ¬ Placeholder.project.StandsIn wishes.projectName.display.toList := by
  rw [← Placeholder.holds_iff_standsIn]
  decide

theorem mentions {p : Placeholder} {f : String × Scalar} (here : f ∈ shelf.payload wishes.target .null)
    (shown : Text.holds p.text.toList f.2.display.toList = true) (m : Model) :
    DependsOn p.name (sent (Resource.operation m wishes (.database shelf))) :=
  (dependsOn_sent p _).2 ⟨f, here, .inr (Placeholder.holds_iff_standsIn.1 shown)⟩

end Sample

open Sample in
/-- The server is given, but a name mentions its variable; the project is created by the script. -/
theorem looks_of_placeholders_demanded :
    ¬ Placeholder.project.StandsIn wishes.projectName.display.toList ∧
    ∃ c x, shop.operations wishes = [c] ++ x :: [] ∧ Bootstraps [c] ∧
      DependsOn "PROJECT_UUID" (sent x) ∧
      "PROJECT_UUID" ∉ demanded (render wishes.withNotes (shop.operations wishes)) ∧
      "SERVER_UUID" ∈ demanded (render wishes.withNotes (shop.operations wishes)) := by
  have covered := fun earlier x later place =>
    ((demands_what_is_used shop wishes nameless).1 earlier x later place).2
  have project : DependsOn Placeholder.project.name (sent (Resource.operation shop wishes (.database shelf))) :=
    mentions (f := ("project_uuid", .text Placeholder.project.text)) (by decide) (by decide) shop
  have server : DependsOn Placeholder.server.name (sent (Resource.operation shop wishes (.database shelf))) :=
    mentions (f := ("name", .text shelf.name)) (by decide) (by decide) shop
  have made : Placeholder.project.name ∉ demanded (render wishes.withNotes (shop.operations wishes)) :=
    fun asked => (mem_demanded.1 asked).2 ⟨rfl, by decide⟩
  refine ⟨nameless, _, _, rfl, ?_, project, made, ?_⟩
  · exact ((covered _ _ _ rfl .project project).resolve_left made).2
  · exact (covered _ _ _ rfl .server server).resolve_right fun h => nomatch h.1

end Script
end HostPlan
