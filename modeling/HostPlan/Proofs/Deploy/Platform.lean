import HostPlan.Proofs.Deploy.Existing
/-!
A platform that remembers. It holds things on three shelves, shows a shelf to whoever lists it, and
puts a thing on a shelf for every creation that it reports as a success. It never loses a thing;
others may add some at any time, and a creation that is reported as a failure may have left a thing
behind as well. Which calls succeed is left to the client.
-/
namespace HostPlan.Deploy

open Remote

/-- An object with a name and an identifier, whatever else it holds. -/
structure Thing where
  fields : Entries String Value
  name : String
  uuid : Value
  named : Entries.get? "name" fields = some (.text name)
  marked : Entries.get? "uuid" fields = some uuid
  known : uuid.isNull = false

inductive Shelf where
  | databases
  | applications
  | services
deriving DecidableEq

/-- Storage stands with the services. -/
def Shelf.of : Category → Shelf
  | .database => .databases
  | .application => .applications
  | _ => .services

/-- The shelf that a call lists. -/
def Shelf.listedBy? : Call → Option Shelf
  | .databases => some .databases
  | .applications => some .applications
  | .services => some .services
  | _ => none

/-- The shelf on which a call puts something. -/
def Shelf.filledBy? : Call → Option Shelf
  | .createDatabase _ _ => some .databases
  | .createApplication _ _ => some .applications
  | .createService _ => some .services
  | _ => none

/-- A call that puts something on a shelf lists none. -/
theorem Shelf.listedBy?_eq_none {c : Call} {k : Shelf} (h : Shelf.filledBy? c = some k) :
    Shelf.listedBy? c = none := by
  cases c <;> first | rfl | cases h

/-- The name that a call gives to what it creates. -/
def givenName (c : Call) : Option Value := c.body?.map (Value.field "name")

abbrev Platform := Shelf → List Thing

namespace Platform

def shown (p : Platform) (k : Shelf) : Value := .list ((p k).map fun t => .record t.fields)

/-- Nothing is lost from one platform to the other. -/
def Within (p q : Platform) : Prop := ∀ k, ∀ t ∈ p k, t ∈ q k

theorem Within.refl (p : Platform) : p.Within p := fun _ _ h => h

theorem Within.trans {p q q' : Platform} (first : p.Within q) (second : q.Within q') :
    p.Within q' :=
  fun k t h => second k t (first k t h)

/-- One call, answered by the client. -/
structure Step (client : Client) (p : Platform) (asked : Nat × Call) (q : Platform) : Prop where
  keeps : p.Within q
  lists : ∀ k data, Shelf.listedBy? asked.2 = some k →
    client.reply asked.1 asked.2 = .answered (.success data) → data = p.shown k
  creates : ∀ k data, Shelf.filledBy? asked.2 = some k →
    client.reply asked.1 asked.2 = .answered (.success data) →
    ∃ t ∈ q k, givenName asked.2 = some (.text t.name)

/-- Calls one after the other. -/
inductive Run (client : Client) : Platform → List (Nat × Call) → Platform → Prop where
  | done (p : Platform) : Run client p [] p
  | call {p q q' : Platform} {asked : Nat × Call} {rest : List (Nat × Call)} :
    Step client p asked q → Run client q rest q' → Run client p (asked :: rest) q'

variable {client : Client} {p q : Platform} {calls : List (Nat × Call)}

theorem Run.within (run : Run client p calls q) : p.Within q := by
  induction run with
  | done p => exact .refl p
  | call step _ ih => exact step.keeps.trans ih

/-- Every call of a run has been a step on the way. -/
theorem Run.step_of_mem (run : Run client p calls q) {asked : Nat × Call} (h : asked ∈ calls) :
    ∃ p₁ p₂, p.Within p₁ ∧ Step client p₁ asked p₂ ∧ p₂.Within q := by
  induction run with
  | done p => cases h
  | @call p₁ p₂ q' first rest step run ih =>
    rcases List.mem_cons.1 h with rfl | h
    · exact ⟨p₁, p₂, .refl p₁, step, run.within⟩
    · obtain ⟨p₃, p₄, before, found, after⟩ := ih h
      exact ⟨p₃, p₄, step.keeps.trans before, found, after⟩

/-- The platform has a thing of the name and kind of the resource. -/
def Holds (p : Platform) (r : Resource) : Prop := ∃ t ∈ p (.of r.category), t.name = r.name

theorem Holds.within {r : Resource} (within : p.Within q) : p.Holds r → q.Holds r := by
  rintro ⟨t, ht, name⟩
  exact ⟨t, within _ t ht, name⟩

end Platform

theorem Thing.listed? (t : Thing) (h : t.name ≠ "") :
    listed? (.record t.fields) = some (.text t.name, t.uuid) := by
  rw [listed?_record t.named h, t.marked]
  rfl

theorem Thing.name_field (t : Thing) : (Value.record t.fields).field "name" = .text t.name := by
  rw [Value.field, t.named]
  rfl

theorem field_toValue (key : String) (p : Payload) :
    (Payload.toValue p).field key = ((Entries.get? key p).map Value.ofScalar).getD .null := by
  rw [Payload.toValue, Value.field]
  congr 1
  induction p with
  | nil => rfl
  | cons f rest ih =>
    by_cases h : f.1 = key
    · simp [Entries.get?_cons, h]
    · simp [Entries.get?_cons, h, ih]

theorem givenName_toValue {p : Payload} {name : String} {c : Call}
    (body : c.body? = some (Payload.toValue p)) (h : Entries.get? "name" p = some (.text name)) :
    givenName c = some (.text name) := by
  rw [givenName, body, Option.map_some, field_toValue, h]
  rfl

theorem name_databasePayload (d : Database) (target : Target) (instant : Scalar) :
    Entries.get? "name" (d.payload target instant) = some (.text d.name) := by
  simp [Database.payload, Target.payload, Entries.get?_cons]

theorem name_applicationPayload (a : Application) (target : Target) (instant : Scalar)
    (repository : Option Repository) (buildPack : Scalar) :
    Entries.get? "name" (a.payload target instant repository buildPack) = some (.text a.name) := by
  cases h : Application.source? repository with
  | none =>
    simp [Application.payload, h, Application.imageFields, Application.commonFields,
      Target.payload, Entries.get?_cons]
  | some r =>
    by_cases hidden : r.app.isFilled
    · simp [Application.payload, h, Application.repositoryFields, Application.commonFields,
        Target.payload, Entries.get?_cons, hidden]
    · simp [Application.payload, h, Application.repositoryFields, Application.commonFields,
        Target.payload, Entries.get?_cons, hidden]

/-- A resource is created on its own shelf and under its own name. -/
theorem filledBy?_of_call? {s : Settings} {r : Resource} {c : Call} (h : call? s r = some c) :
    Shelf.filledBy? c = some (.of r.category) ∧ givenName c = some (.text r.name) := by
  cases r with
  | database d =>
    simp only [call?] at h
    split at h
    · cases h
      exact ⟨rfl, givenName_toValue rfl (name_databasePayload d s.target s.instant)⟩
    · cases h
  | storage r =>
    cases h
    exact ⟨rfl, rfl⟩
  | service r =>
    cases h
    exact ⟨rfl, rfl⟩
  | application a =>
    cases h
    exact ⟨by cases Application.flavor s.repository <;> rfl,
      givenName_toValue rfl (name_applicationPayload a s.target s.instant s.repository s.buildPack)⟩

namespace Platform

/-- A client that lists what the platform holds. Creations end as it is told. -/
def client (p : Platform) (fate : Nat → Reply) : Client where
  databases := .answered (.success (p.shown .databases))
  applications := .answered (.success (p.shown .applications))
  services := .answered (.success (p.shown .services))
  create := fate

def add (p : Platform) (k : Shelf) (t : Thing) : Platform :=
  fun k' => if k' = k then p k ++ [t] else p k'

theorem within_add (p : Platform) (k : Shelf) (t : Thing) : p.Within (p.add k t) := by
  intro k' t' h
  by_cases hk : k' = k
  · subst hk
    simp [add, h]
  · simpa [add, hk] using h

theorem step_add (client : Client) (p : Platform) {turn : Nat} {c : Call} {k : Shelf} {t : Thing}
    (shelf : Shelf.filledBy? c = some k) (given : givenName c = some (.text t.name)) :
    Step client p (turn, c) (p.add k t) where
  keeps := p.within_add k t
  lists := by
    intro k' data reads _
    rw [Shelf.listedBy?_eq_none shelf] at reads
    cases reads
  creates := by
    intro k' data fills _
    rw [shelf] at fills
    obtain rfl := Option.some.inj fills
    exact ⟨t, by simp [add], given⟩

theorem step_list (fate : Nat → Reply) (p : Platform) {turn : Nat} {c : Call} {k : Shelf}
    (shelf : Shelf.listedBy? c = some k) : Step (p.client fate) p (turn, c) p where
  keeps := .refl p
  lists := by
    intro k' data reads answered
    rw [shelf] at reads
    obtain rfl := Option.some.inj reads
    cases c <;> cases shelf <;> exact (Answer.success.inj (Reply.answered.inj answered)).symm
  creates := by
    intro k' data fills _
    rw [Shelf.listedBy?_eq_none fills] at shelf
    cases shelf

/-- Whatever is to go wrong, every platform can serve a deployment. -/
theorem exists_run (p : Platform) (fate : Nat → Reply) (s : Settings) (m : Model) :
    ∃ q, Run (p.client fate) p ((p.client fate).deployment s m).2.calls q := by
  have creations : ∀ (calls : List (Nat × Call)) (p' : Platform),
      (∀ asked ∈ calls, ∃ k name, Shelf.filledBy? asked.2 = some k ∧
        givenName asked.2 = some (.text name)) → ∃ q, Run (p.client fate) p' calls q := by
    intro calls
    induction calls with
    | nil => exact fun p' _ => ⟨p', .done p'⟩
    | cons asked rest ih =>
      intro p' creates
      obtain ⟨k, name, shelf, given⟩ := creates asked List.mem_cons_self
      let thing : Thing := ⟨[("name", .text name), ("uuid", .text name)], name, .text name, rfl,
        rfl, rfl⟩
      obtain ⟨q, run⟩ := ih (p'.add k thing) fun a h => creates a (List.mem_cons_of_mem _ h)
      exact ⟨q, .call (step_add _ p' shelf given) run⟩
  rw [deployment_calls]
  obtain ⟨q, run⟩ := creations (m.resources.zipIdx.filterMap fun pair =>
      (creation? s (p.client fate).inventory pair.1).map fun c => (pair.2 + 1, c)) p (by
    intro asked h
    obtain ⟨pair, _, made⟩ := List.mem_filterMap.1 h
    obtain ⟨c, created, rfl⟩ := Option.map_eq_some_iff.1 made
    exact ⟨_, _, filledBy?_of_call? (call?_of_creation? created)⟩)
  exact ⟨q, .call (step_list fate p rfl) (.call (step_list fate p rfl)
    (.call (step_list fate p rfl) run))⟩

end Platform

end HostPlan.Deploy
