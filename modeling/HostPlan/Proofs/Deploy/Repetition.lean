import HostPlan.Proofs.Deploy.Platform
/-!
A deployment made twice. On a platform that remembers, with existing things to be skipped, a second
deployment finds everything that the first one left in good order and touches none of it, whatever
went wrong the first time.
-/
namespace HostPlan.Deploy

open Remote

variable {client : Client} {p q : Platform} {s : Settings} {m : Model}

/-- A listing in a deployment shows a shelf as it was at some moment of the run. -/
theorem Platform.Run.listing (run : Run client p (client.deployment s m).2.calls q) (k : Category)
    {data : Value} (answered : client.listing k = .answered (.success data)) :
    ∃ p', p.Within p' ∧ p'.Within q ∧ data = p'.shown (.of k) := by
  have lists : ∃ c, (0, c) ∈ (client.deployment s m).2.calls ∧ Shelf.listedBy? c = some (.of k) ∧
      client.reply 0 c = client.listing k := by
    rw [deployment_calls]
    cases k with
    | database => exact ⟨.databases, by simp, rfl, rfl⟩
    | application => exact ⟨.applications, by simp, rfl, rfl⟩
    | _ => exact ⟨.services, by simp, rfl, rfl⟩
  obtain ⟨c, asked, shelf, reply⟩ := lists
  obtain ⟨p₁, p₂, before, step, after⟩ := run.step_of_mem asked
  exact ⟨p₁, before, step.keeps.trans after, step.lists _ data shelf (reply.trans answered)⟩

/-- What a deployment reports as existing or as created is on the platform behind it. -/
theorem Platform.Run.holds (run : Run client p (client.deployment s m).2.calls q) {i : Nat}
    {r : Resource} (place : m.resources[i]? = some r)
    (success : (outcome s client.inventory r (client.create i)).success = true) : q.Holds r := by
  cases h : client.inventory.existing? r with
  | some v =>
    obtain ⟨items, answered, item, mem, found⟩ := listed_of_existing? h
    obtain ⟨p', _, after, shown⟩ := run.listing r.category answered
    obtain ⟨t, ht, rfl⟩ := List.mem_map.1 (Value.list.inj shown ▸ mem)
    have name : Value.text t.name = .text r.name := t.name_field.symm.trans (name_of_listed? found)
    exact ⟨t, after _ t ht, Value.text.inj name⟩
  | none =>
    cases hc : call? s r with
    | none =>
      simp only [outcome, decision, h, hc] at success
      cases success
    | some c =>
      have created : creation? s client.inventory r = some c := by
        simp only [creation?, decision, h, hc]
      have asked := (mem_deployment_calls client s m place c).2 created
      have reply : client.reply (i + 1) c = client.create i := reply_of_call? hc client (i + 1)
      obtain ⟨shelf, given⟩ := filledBy?_of_call? hc
      simp only [outcome, decision, h, hc] at success
      cases hr : client.create i with
      | raised message =>
        rw [hr] at success
        cases success
      | answered a =>
        cases a with
        | failure error =>
          rw [hr] at success
          cases success
        | success data =>
          obtain ⟨p₁, p₂, _, step, after⟩ := run.step_of_mem asked
          obtain ⟨t, ht, name⟩ := step.creates _ data shelf (reply.trans hr)
          rw [given] at name
          exact ⟨t, after _ t ht, (Value.text.inj (Option.some.inj name)).symm⟩

/-- What is on the platform when a deployment begins exists for it, if it can be listed. -/
theorem Platform.Holds.existing? {r : Resource} (held : p.Holds r) (filled : r.name ≠ "")
    (run : Run client p (client.deployment s m).2.calls q) {data : Value}
    (answered : client.listing r.category = .answered (.success data)) :
    ∃ v, client.inventory.existing? r = some v := by
  obtain ⟨p', before, _, rfl⟩ := run.listing r.category answered
  obtain ⟨t, ht, name⟩ := held.within before
  refine exists_existing? answered (List.mem_map_of_mem ht)
    (by rw [t.listed? (name ▸ filled), name]) ?_
  intro other hother v found
  obtain ⟨t', _, rfl⟩ := List.mem_map.1 hother
  have same : t'.name = r.name :=
    Value.text.inj (t'.name_field.symm.trans (name_of_listed? found))
  rw [t'.listed? (same ▸ filled)] at found
  obtain ⟨_, rfl⟩ := Prod.mk.inj (Option.some.inj found)
  exact t'.known

/-- The three listings succeed. -/
def Client.ListsAll (client : Client) : Prop :=
  ∀ k, ∃ data, client.listing k = .answered (.success data)

/-- A deployment in which everything exists calls for nothing but the inventory. -/
theorem deployment_of_all_existing (client : Client) (skips : s.skipExisting = true)
    (all : ∀ r ∈ m.resources, ∃ v, client.inventory.existing? r = some v) :
    (client.deployment s m).2.calls = [(0, .databases), (0, .applications), (0, .services)] ∧
    (client.deployment s m).1.skipped = m.resources.length := by
  have turn : ∀ pair ∈ m.resources.zipIdx, ∃ v, client.inventory.existing? pair.1 = some v :=
    fun pair h => all pair.1 (List.mem_of_getElem? (List.mem_zipIdx_iff_getElem?.1 h))
  constructor
  · have quiet : ∀ pair ∈ m.resources.zipIdx,
        ((creation? s client.inventory pair.1).map fun c => (pair.2 + 1, c)) = none := by
      intro pair h
      obtain ⟨v, hv⟩ := turn pair h
      simp [creation?, decision, hv, skips]
    rw [deployment_calls, List.filterMap_eq_nil_iff.2 quiet, List.append_nil]
  · have each : ∀ result ∈ (client.deployment s m).1.results, result.skipped = true := by
      intro result h
      rw [deployment_results] at h
      obtain ⟨pair, hpair, rfl⟩ := List.mem_map.1 h
      obtain ⟨v, hv⟩ := turn pair hpair
      simp [outcome, decision, hv, skips, Result.existing]
    rw [Summary.skipped, List.countP_eq_length.2 each, deployment_results, List.length_map,
      List.length_zipIdx]

/-- A second deployment skips all that the first one created or skipped and calls for none of it;
after a first one without failures it creates nothing and skips everything. -/
theorem repeated_deployment_skips {first second : Client} {p q q' : Platform}
    (skips : s.skipExisting = true) (filled : ∀ r ∈ m.resources, r.name ≠ "")
    (run : Platform.Run first p (first.deployment s m).2.calls q)
    (again : Platform.Run second q (second.deployment s m).2.calls q') (lists : second.ListsAll) :
    (∀ i r result, m.resources[i]? = some r →
      (first.deployment s m).1.results[i]? = some result → result.success = true →
        (∃ v, (second.deployment s m).1.results[i]? = some (.existing r v)) ∧
        ∀ c, (i + 1, c) ∉ (second.deployment s m).2.calls) ∧
    ((∀ result ∈ (first.deployment s m).1.results, result.success = true) →
      (second.deployment s m).2.calls = [(0, .databases), (0, .applications), (0, .services)] ∧
      (second.deployment s m).1.skipped = m.resources.length) := by
  have found : ∀ i r, m.resources[i]? = some r →
      (outcome s first.inventory r (first.create i)).success = true →
      ∃ v, second.inventory.existing? r = some v := by
    intro i r place success
    obtain ⟨data, answered⟩ := lists r.category
    exact (run.holds place success).existing? (filled r (List.mem_of_getElem? place)) again answered
  constructor
  · intro i r result place here success
    rw [deployment_result first s m place] at here
    obtain rfl := Option.some.inj here
    obtain ⟨v, hv⟩ := found i r place success
    have untouched := untouched_of_existing? place (s := s) hv
    exact ⟨untouched.skipped skips, untouched.uncalled⟩
  · intro success
    refine deployment_of_all_existing second skips fun r hr => ?_
    obtain ⟨i, place⟩ := List.getElem?_of_mem hr
    exact found i r place
      (success _ (List.mem_of_getElem? (deployment_result first s m place)))

namespace Interrupted

def model : Model where
  databases := [{ name := "orders" }, { name := "cache", kind := .engine .redis }]
  storage := [{ name := "files" }]
  applications := [{ name := "api" }]

def settings : Settings where
  target := ⟨.text "server", .text "project", .text "production"⟩
  skipExisting := true

def files : Thing := ⟨[("uuid", .text "f"), ("name", .text "files")], "files", .text "f", rfl, rfl, rfl⟩

/-- A platform that has the storage already. -/
def platform : Platform
  | .services => [files]
  | _ => []

/-- The creation of the first database breaks down. -/
def fate : Nat → Reply
  | 0 => .raised "timeout"
  | i => .answered (.success (.record [("uuid", .number i)]))

end Interrupted

open Interrupted in
/-- One database failed, the other one was created and the storage was there: the second deployment
goes on with the rest. -/
theorem interrupted_deployment_goes_on :
    (∀ r ∈ model.resources, r.name ≠ "") ∧
    ((platform.client fate).deployment settings model).1.results.map
      (fun result => (result.success, result.skipped)) =
        [(false, false), (true, false), (true, true), (true, false)] ∧
    ∃ q q', Platform.Run (platform.client fate) platform
        ((platform.client fate).deployment settings model).2.calls q ∧
      Platform.Run (q.client fate) q ((q.client fate).deployment settings model).2.calls q' ∧
      (q.client fate).ListsAll ∧
      (∃ v, ((q.client fate).deployment settings model).1.results[1]? =
        some (.existing (.database { name := "cache", kind := .engine .redis }) v)) ∧
      ∀ c, (3, c) ∉ ((q.client fate).deployment settings model).2.calls := by
  have filled : ∀ r ∈ model.resources, r.name ≠ "" := by decide
  obtain ⟨q, run⟩ := platform.exists_run fate settings model
  obtain ⟨q', again⟩ := q.exists_run fate settings model
  have lists : (q.client fate).ListsAll := by
    intro k
    cases k <;> exact ⟨_, rfl⟩
  have both := (repeated_deployment_skips rfl filled run again lists).1
  have cache := both 1 _ _ rfl (deployment_result (platform.client fate) settings model rfl) rfl
  have storage := both 2 _ _ rfl (deployment_result (platform.client fate) settings model rfl) rfl
  exact ⟨filled, by rw [deployment_results]; rfl, q, q', run, again, lists, cache.1, storage.2⟩

end HostPlan.Deploy
