import HostPlan.Proofs.Deploy.Turn
import Mathlib.Data.List.Forall2
/-!
What holds of every deployment, whatever the client answers: each resource has its result in its
place, the calls are the inventory and at most one creation for each resource, and the answer to one
creation changes nothing about the other resources.
-/
namespace HostPlan.Deploy

open Remote

/-- Every resource has its result, in its place, and the counts add up to the resources. -/
structure Complete (m : Model) (summary : Summary) : Prop where
  places : summary.results.map (fun result => (result.category, result.name)) =
    m.resources.map fun r => (r.category.name, r.name)
  counts : summary.successful + summary.failed + summary.skipped = m.resources.length

/-- Two clients that tell apart only the creation of the resource in one position. -/
structure Client.AgreeExcept (i : Nat) (client other : Client) : Prop where
  databases : client.databases = other.databases
  applications : client.applications = other.applications
  services : client.services = other.services
  create : ∀ k, k ≠ i → client.create k = other.create k

theorem outcome_place (s : Settings) (inventory : Inventory) (r : Resource) (reply : Reply) :
    (outcome s inventory r reply).category = r.category.name ∧
      (outcome s inventory r reply).name = r.name := by
  unfold outcome
  split
  · exact ⟨rfl, rfl⟩
  · exact ⟨rfl, rfl⟩
  · exact ⟨rfl, rfl⟩
  · cases reply with
    | answered a => cases a <;> exact ⟨rfl, rfl⟩
    | raised message => exact ⟨rfl, rfl⟩

/-- What is skipped is no failure. -/
theorem success_of_skipped (s : Settings) (inventory : Inventory) (r : Resource) (reply : Reply)
    (h : (outcome s inventory r reply).skipped = true) :
    (outcome s inventory r reply).success = true := by
  unfold outcome at h ⊢
  split at h
  · rfl
  · cases h
  · cases h
  · cases reply with
    | answered a => cases a <;> cases h
    | raised message => cases h

theorem counts_eq_length (results : List Result) (warnings : List String)
    (sound : ∀ r ∈ results, r.skipped = true → r.success = true) :
    (Summary.mk results warnings).successful + (Summary.mk results warnings).failed +
      (Summary.mk results warnings).skipped = results.length := by
  simp only [Summary.successful, Summary.failed, Summary.skipped]
  induction results with
  | nil => rfl
  | cons r rest ih =>
    have tail := ih fun r' hr' => sound r' (List.mem_cons_of_mem _ hr')
    have head := sound r (List.mem_cons_self)
    simp only [List.countP_cons, List.length_cons]
    cases hk : r.skipped <;> cases hs : r.success
    · simp; omega
    · simp; omega
    · simp [hk, hs] at head
    · simp; omega

theorem complete_deployment (client : Client) (s : Settings) (m : Model) :
    Complete m (client.deployment s m).1 := by
  have results := deployment_results client s m
  constructor
  · have places : ∀ p ∈ m.resources.zipIdx,
        ((outcome s client.inventory p.1 (client.create p.2)).category,
          (outcome s client.inventory p.1 (client.create p.2)).name) =
          (p.1.category.name, p.1.name) := by
      intro p _
      obtain ⟨category, name⟩ := outcome_place s client.inventory p.1 (client.create p.2)
      rw [category, name]
    calc (client.deployment s m).1.results.map (fun result => (result.category, result.name))
        = m.resources.zipIdx.map fun p => (p.1.category.name, p.1.name) := by
          rw [results, List.map_map]
          exact List.map_congr_left places
      _ = (m.resources.zipIdx.map Prod.fst).map fun r => (r.category.name, r.name) := by
          rw [List.map_map]
          rfl
      _ = m.resources.map fun r => (r.category.name, r.name) := by
          rw [List.zipIdx_map_fst]
  · have sound : ∀ r ∈ (client.deployment s m).1.results, r.skipped = true → r.success = true := by
      intro r hr
      rw [results] at hr
      obtain ⟨p, _, rfl⟩ := List.mem_map.1 hr
      exact success_of_skipped s client.inventory p.1 (client.create p.2)
    have total := counts_eq_length _ (client.deployment s m).1.warnings sound
    rw [total, results, List.length_map, List.length_zipIdx]

theorem rehearsal_results (client : Client) (m : Model) :
    (client.rehearsal m).1.results = m.resources.map fun r => .created r (.text "dry-run-uuid") := by
  simp only [Client.rehearsal, rehearse, finish, Client.talk_bind, Client.talk_log,
    Client.talk_pure]
  exact (talk_rehearsal client m.resources {}).1

theorem complete_rehearsal (client : Client) (m : Model) : Complete m (client.rehearsal m).1 := by
  have results := rehearsal_results client m
  constructor
  · rw [results, List.map_map]
    rfl
  · have sound : ∀ r ∈ (client.rehearsal m).1.results, r.skipped = true → r.success = true := by
      intro r hr _
      rw [results] at hr
      obtain ⟨_, _, rfl⟩ := List.mem_map.1 hr
      rfl
    have total := counts_eq_length _ (client.rehearsal m).1.warnings sound
    rw [total, results, List.length_map]

/-- A rehearsal calls nobody and ends well for every resource. -/
structure Harmless (m : Model) (run : Summary × Journal) : Prop where
  complete : Complete m run.1
  success : ∀ r ∈ run.1.results, r.success = true
  silent : run.2.calls = []
  lines : run.2.lines.length = 2 * m.resources.length

theorem harmless_rehearsal (client : Client) (m : Model) : Harmless m (client.rehearsal m) where
  complete := complete_rehearsal client m
  success := by
    intro r hr
    rw [rehearsal_results] at hr
    obtain ⟨_, _, rfl⟩ := List.mem_map.1 hr
    rfl
  silent := by
    simp only [Client.rehearsal, rehearse, finish, Client.talk_bind, Client.talk_log,
      Client.talk_pure, Journal.calls_note]
    exact (talk_rehearsal client m.resources {}).2.2
  lines := by
    simp only [Client.rehearsal, rehearse, finish, Client.talk_bind, Client.talk_log,
      Client.talk_pure, Journal.lines_note]
    have said := (talk_rehearsal client m.resources {}).2.1
    simpa using said

/-- The lines of a row of turns, two for each. -/
theorem getElem?_turns {α : Type} (first second : α → String) (turns : List α) (k : Nat) :
    (turns.flatMap fun t => [first t, second t])[2 * k]? = turns[k]?.map first ∧
      (turns.flatMap fun t => [first t, second t])[2 * k + 1]? = turns[k]?.map second := by
  induction turns generalizing k with
  | nil => simp
  | cons t rest ih =>
    cases k with
    | zero => simp
    | succ k =>
      have even : 2 * (k + 1) = 2 * k + 1 + 1 := by omega
      simpa [even] using ih k

theorem length_turns {α : Type} (first second : α → String) (turns : List α) :
    (turns.flatMap fun t => [first t, second t]).length = 2 * turns.length := by
  induction turns with
  | nil => rfl
  | cons t rest ih =>
    simp only [List.flatMap_cons, List.length_append, ih, List.length_cons, List.length_nil]
    omega

theorem deployment_openingLine (client : Client) (s : Settings) (m : Model) {i : Nat} {r : Resource}
    (h : m.resources[i]? = some r) :
    (client.deployment s m).2.lines[2 * i + 2]? = some (openingLine r) := by
  have turn := (getElem?_turns (fun p : Resource × Nat => openingLine p.1)
    (fun p => closingLine s client.inventory p.1 (client.create p.2)) m.resources.zipIdx i).1
  rw [deployment_lines, List.getElem?_append_right (by simp)]
  simp only [List.length_cons, List.length_nil, Nat.add_sub_cancel]
  rw [turn, List.getElem?_zipIdx, h]
  rfl

section Isolation

variable {client other : Client} {i : Nat}

theorem Client.AgreeExcept.inventory (agree : client.AgreeExcept i other) :
    client.inventory = other.inventory := by
  simp only [Client.inventory, agree.databases, agree.applications, agree.services]

theorem deployment_calls_isolated (agree : client.AgreeExcept i other) (s : Settings) (m : Model) :
    (other.deployment s m).2.calls = (client.deployment s m).2.calls := by
  rw [deployment_calls, deployment_calls, agree.inventory]

theorem deployment_warnings_isolated (agree : client.AgreeExcept i other) (s : Settings)
    (m : Model) : (other.deployment s m).1.warnings = (client.deployment s m).1.warnings := by
  rw [deployment_warnings, deployment_warnings, agree.inventory, agree.databases,
    agree.applications, agree.services]

theorem deployment_results_isolated (agree : client.AgreeExcept i other) (s : Settings) (m : Model)
    {k : Nat} (hk : k ≠ i) :
    (other.deployment s m).1.results[k]? = (client.deployment s m).1.results[k]? := by
  simp only [deployment_results, List.getElem?_map, List.getElem?_zipIdx, agree.inventory]
  cases m.resources[k]? with
  | none => rfl
  | some r => simp [agree.create k hk]

/-- The only line that may differ closes the turn of the resource in question. -/
theorem deployment_lines_isolated (agree : client.AgreeExcept i other) (s : Settings) (m : Model)
    {n : Nat} (hn : n ≠ 2 * i + 3) :
    (other.deployment s m).2.lines[n]? = (client.deployment s m).2.lines[n]? := by
  rw [deployment_lines, deployment_lines, agree.inventory]
  obtain early | late := Nat.lt_or_ge n 2
  · rw [List.getElem?_append_left (by simpa using early),
      List.getElem?_append_left (by simpa using early)]
  · rw [List.getElem?_append_right (by simpa using late),
      List.getElem?_append_right (by simpa using late)]
    simp only [List.length_cons, List.length_nil]
    obtain ⟨k, hk | hk⟩ : ∃ k, n - (0 + 1 + 1) = 2 * k ∨ n - (0 + 1 + 1) = 2 * k + 1 :=
      ⟨(n - 2) / 2, by omega⟩
    · rw [hk, (getElem?_turns _ _ m.resources.zipIdx k).1,
        (getElem?_turns _ _ m.resources.zipIdx k).1]
    · have elsewhere : k ≠ i := by omega
      rw [hk, (getElem?_turns _ _ m.resources.zipIdx k).2,
        (getElem?_turns _ _ m.resources.zipIdx k).2, List.getElem?_zipIdx]
      cases m.resources[k]? with
      | none => rfl
      | some r => simp [agree.create k elsewhere]

end Isolation

/-- A run accounts for every resource in order, asks for the inventory once and for each resource at
most once, says two lines for each, and keeps the failure of one creation away from all others. -/
theorem deployment_accounts_and_isolates (client : Client) (s : Settings) (m : Model) :
    Complete m (client.deployment s m).1 ∧
    (∃ creations : List (Option Call),
      List.Forall₂ (fun r asked => ∀ c, asked = some c → call? s r = some c)
        m.resources creations ∧
      (client.deployment s m).2.calls =
        [(0, .databases), (0, .applications), (0, .services)] ++
          creations.zipIdx.filterMap fun p => p.1.map fun c => (p.2 + 1, c)) ∧
    (client.deployment s m).2.lines.length = 2 + 2 * m.resources.length ∧
    (∀ i r, m.resources[i]? = some r →
      (client.deployment s m).2.lines[2 * i + 2]? = some (openingLine r)) ∧
    Harmless m (client.rehearsal m) ∧
    ∀ i other, client.AgreeExcept i other →
      (other.deployment s m).2.calls = (client.deployment s m).2.calls ∧
      (other.deployment s m).1.warnings = (client.deployment s m).1.warnings ∧
      (∀ k, k ≠ i →
        (other.deployment s m).1.results[k]? = (client.deployment s m).1.results[k]?) ∧
      ∀ n, n ≠ 2 * i + 3 →
        (other.deployment s m).2.lines[n]? = (client.deployment s m).2.lines[n]? := by
  refine ⟨complete_deployment client s m,
    ⟨m.resources.map (creation? s client.inventory), ?asked, ?calls⟩, ?lines,
    fun i r => deployment_openingLine client s m, harmless_rehearsal client m,
    fun i other agree => ⟨deployment_calls_isolated agree s m,
      deployment_warnings_isolated agree s m,
      fun k => deployment_results_isolated agree s m,
      fun n => deployment_lines_isolated agree s m⟩⟩
  case asked =>
    rw [List.forall₂_map_right_iff, List.forall₂_same]
    exact fun r _ c => call?_of_creation?
  case calls =>
    rw [deployment_calls, List.zipIdx_map, List.filterMap_map]
    rfl
  case lines =>
    rw [deployment_lines, List.length_append, length_turns, List.length_zipIdx]
    rfl

namespace Example

def model : Model where
  databases := [{ name := "main" }, { name := "cache", kind := .engine .redis }]
  applications := [{ name := "api" }]

def settings : Settings where
  target := ⟨.text "server", .text "project", .text "production"⟩

/-- A client that lists nothing but its databases and creates whatever it is asked to. -/
def willing : Client where
  databases := .answered (.success (.list []))
  applications := .raised "timeout"
  services := .answered (.success .null)
  create := fun k => .answered (.success (.record [("uuid", .number k)]))

/-- The same client, but the connection breaks down in the turn of the second database. -/
def broken : Client := { willing with
  create := fun k => if k = 1 then .raised "connection lost" else willing.create k }

theorem agree : willing.AgreeExcept 1 broken where
  databases := rfl
  applications := rfl
  services := rfl
  create := fun k hk => by simp [broken, hk]

end Example

open Example in
/-- The broken connection costs the second database and leaves the application alone. -/
theorem broken_connection_costs_one_database :
    (broken.deployment settings model).1.results.map Result.success = [true, false, true] ∧
    (broken.deployment settings model).1.results[2]? =
      (willing.deployment settings model).1.results[2]? :=
  ⟨by rw [deployment_results]; rfl,
    ((deployment_accounts_and_isolates willing settings model).2.2.2.2.2 1 broken agree).2.2.1 2
      (by decide)⟩

end HostPlan.Deploy
