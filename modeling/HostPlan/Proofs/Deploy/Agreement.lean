import HostPlan.Proofs.Declaration.Kept
import HostPlan.Proofs.Deploy.Turn
import Mathlib.Data.List.Basic
/-!
A plan and a deployment with the same aim agree. On a platform that lists nothing, the requests that
a deployment sends are the operations of the plan, in the same order and with the same bodies,
however they are answered.
-/
namespace HostPlan.Deploy

open Remote

/-- What a deployment creates: verb, path and body of every call that is no reading. -/
def Journal.sent (j : Journal) : List (String × String × Value) :=
  j.calls.filterMap fun p => p.2.body?.map fun body => (p.2.verb, p.2.path, body)

/-- The same of an operation. -/
def planned (o : Operation) : String × String × Value :=
  (o.method, o.endpoint, o.payload.toValue)

/-- A plan and a deployment into the same project, with the same wishes. -/
structure SameAim (o : Options) (s : Settings) : Prop where
  target : s.target = ⟨o.server, o.project, o.environmentName⟩
  server : o.server.isFilled = true
  project : o.project.isFilled = true
  environment : o.environmentName.isFilled = true
  instant : s.instant = o.instant
  repository : s.repository = o.repository
  buildPack : s.buildPack = o.buildPack

structure Client.Empty (client : Client) : Prop where
  databases : client.databases = .answered (.success (.list []))
  applications : client.applications = .answered (.success (.list []))
  services : client.services = .answered (.success (.list []))

theorem SameAim.target_filled {o : Options} {s : Settings} (same : SameAim o s) :
    o.target = s.target := by
  simp [Options.target, Target.filled, Scalar.orElse, same.target, same.server, same.project,
    same.environment]

/-- The creation of a resource is the operation that plans it. -/
theorem call?_eq_operation {o : Options} {s : Settings} (same : SameAim o s) (m : Model)
    {r : Resource} (known : ∀ d, r = .database d → Declaration.Known d) :
    ∃ c, call? s r = some c ∧
      c.body?.map (fun body => (c.verb, c.path, body)) = some (planned (r.operation m o)) := by
  have target := same.target_filled
  cases r with
  | database d =>
    obtain ⟨e, he⟩ := known d rfl
    refine ⟨_, by rw [call?, he], ?_⟩
    simp only [Resource.operation, planned, target, he, same.instant]
    cases e <;> rfl
  | storage r =>
    refine ⟨_, rfl, ?_⟩
    simp only [Resource.operation, planned, target, same.instant]
    rfl
  | service r =>
    refine ⟨_, rfl, ?_⟩
    simp only [Resource.operation, planned, target, same.instant]
    rfl
  | application a =>
    refine ⟨_, rfl, ?_⟩
    simp only [Resource.operation, planned, target, same.instant, same.repository, same.buildPack]
    cases Application.flavor o.repository <;> rfl

theorem decision_of_empty {client : Client} (empty : client.Empty) {s : Settings} {r : Resource}
    {c : Call} (h : call? s r = some c) : decision s client.inventory r = .create c := by
  have nothing : client.inventory.existing? r = none := by
    simp only [Client.inventory, empty.databases, empty.applications, empty.services]
    cases r <;> rfl
  simp only [decision, nothing, h]

theorem creation?_of_empty {client : Client} (empty : client.Empty) {s : Settings} {r : Resource}
    {c : Call} (h : call? s r = some c) : creation? s client.inventory r = some c := by
  simp only [creation?, decision_of_empty empty h]

theorem sent_deployment (client : Client) (s : Settings) (m : Model) :
    (client.deployment s m).2.sent =
      m.resources.filterMap fun r => (creation? s client.inventory r).bind fun c =>
        c.body?.map fun body => (c.verb, c.path, body) := by
  have positions : ∀ p : Resource × Nat,
      (((creation? s client.inventory p.1).map fun c => (p.2 + 1, c)).bind fun q : Nat × Call =>
        q.2.body?.map fun body => (q.2.verb, q.2.path, body)) =
      (creation? s client.inventory p.1).bind fun c =>
        c.body?.map fun body => (c.verb, c.path, body) := by
    intro p
    cases creation? s client.inventory p.1 <;> rfl
  rw [Journal.sent, deployment_calls, List.filterMap_append, List.filterMap_filterMap]
  simp only [positions]
  have places : (m.resources.zipIdx.map Prod.fst).filterMap
      (fun r => (creation? s client.inventory r).bind fun c =>
        c.body?.map fun body => (c.verb, c.path, body)) =
      m.resources.zipIdx.filterMap fun p => (creation? s client.inventory p.1).bind fun c =>
        c.body?.map fun body => (c.verb, c.path, body) := List.filterMap_map ..
  rw [← places, List.zipIdx_map_fst]
  rfl

theorem known_resources {m : Model} (known : ∀ d ∈ m.databases, Declaration.Known d) {r : Resource}
    (hr : r ∈ m.resources) (d : Database) (hd : r = .database d) : Declaration.Known d := by
  subst hd
  simp only [Model.resources, List.mem_append, List.mem_map] at hr
  rcases hr with ((⟨d', hd', he⟩ | ⟨_, _, he⟩) | ⟨_, _, he⟩) | ⟨_, _, he⟩
  · cases he
    exact known d hd'
  · cases he
  · cases he
  · cases he

theorem sent_eq_planned {m : Model} (known : ∀ d ∈ m.databases, Declaration.Known d) {o : Options}
    {s : Settings} (same : SameAim o s) {client : Client} (empty : client.Empty) :
    (client.deployment s m).2.sent = (m.operations o).map planned := by
  have noProject : o.projectOperation? = none := by simp [Options.projectOperation?, same.project]
  have each : ∀ r ∈ m.resources, ((creation? s client.inventory r).bind fun c =>
      c.body?.map fun body => (c.verb, c.path, body)) = some (planned (r.operation m o)) := by
    intro r hr
    obtain ⟨c, hc, sends⟩ := call?_eq_operation same m (known_resources known hr)
    rw [creation?_of_empty empty hc]
    exact sends
  calc (client.deployment s m).2.sent
      = m.resources.filterMap fun r => some (planned (r.operation m o)) := by
        rw [sent_deployment]
        exact List.filterMap_congr each
    _ = m.resources.map fun r => planned (r.operation m o) := by
        rw [List.filterMap_eq_map']
    _ = (m.operations o).map planned := by
        rw [Model.operations, noProject, Option.toList_none, List.nil_append, List.map_map]
        rfl

theorem warnings_eq_planned {m : Model} (known : ∀ d ∈ m.databases, Declaration.Known d)
    {o : Options} {s : Settings} (same : SameAim o s) {client : Client} (empty : client.Empty) :
    (client.deployment s m).1.warnings = m.warnings := by
  rw [deployment_warnings, empty.databases, empty.applications, empty.services]
  apply List.filterMap_congr
  intro r hr
  obtain ⟨c, hc, _⟩ := call?_eq_operation same m (known_resources known hr)
  rw [decision_of_empty empty hc]

/-- What a deployment sends is what the plan says, in order, and so are its warnings. Every program
that can be read has a model of which this holds. -/
theorem deployment_follows_plan :
    (∀ (m : Model) (o : Options) (s : Settings) (client : Client),
      (∀ d ∈ m.databases, Declaration.Known d) → SameAim o s → client.Empty →
        (client.deployment s m).2.sent = (m.operations o).map planned ∧
        (client.deployment s m).1.warnings = m.warnings) ∧
    ∀ (source : List Char) (a : Assembly), Declaration.readProgram source = .ok a →
      ∀ d ∈ a.model.databases, Declaration.Known d :=
  ⟨fun _ _ _ _ known same empty =>
      ⟨sent_eq_planned known same empty, warnings_eq_planned known same empty⟩,
    fun _ _ => Declaration.known_readProgram⟩

namespace Sample

def model : Model where
  databases := [{ name := "orders", kind := .engine .sqlserver }]
  storage := [{ name := "files" }]
  applications := [{ name := "api" }]

def options : Options where
  project := .text "project"
  server := .text "server"
  environmentName := .text "production"
  repository := some { location := .text "https://example.org/shop" }

def settings : Settings where
  target := ⟨.text "server", .text "project", .text "production"⟩
  skipExisting := true
  repository := some { location := .text "https://example.org/shop" }

def client : Client where
  databases := .answered (.success (.list []))
  applications := .answered (.success (.list []))
  services := .answered (.success (.list []))
  create := fun k => if k = 1 then .raised "timeout" else .answered (.failure .null)

def source : List Char := "var cache = builder.AddRedis(\"cache\").WithHostPort(6379);".toList

theorem known : ∀ d ∈ model.databases, Declaration.Known d := by
  intro d hd
  obtain rfl := List.mem_singleton.1 hd
  exact ⟨.sqlserver, rfl⟩

theorem sameAim : SameAim options settings := ⟨rfl, rfl, rfl, rfl, rfl, rfl, rfl⟩

theorem empty : client.Empty := ⟨rfl, rfl, rfl⟩

theorem readable : (Declaration.readProgram source).toOption.isSome = true := by decide +kernel

end Sample

open Sample in
/-- A deployment that fails throughout sends the whole plan, and the program with a cache is one of
those that can be read. -/
theorem failing_deployment_follows_plan :
    (∀ d ∈ model.databases, Declaration.Known d) ∧ SameAim options settings ∧ client.Empty ∧
    (client.deployment settings model).2.sent.map (fun request => request.2.1) =
      ["/databases/postgresql", "/services", "/applications/public"] ∧
    (client.deployment settings model).1.warnings =
      ["Database \"orders\" uses sqlserver, which Coolify does not support; " ++
        "deploying as PostgreSQL instead."] ∧
    ∃ a, Declaration.readProgram source = .ok a ∧ ∀ d ∈ a.model.databases, Declaration.Known d := by
  obtain ⟨sent, warned⟩ := deployment_follows_plan.1 model options settings client known sameAim empty
  refine ⟨known, sameAim, empty, ?_, ?_, ?_⟩
  · rw [sent]
    rfl
  · rw [warned]
    rfl
  · cases h : Declaration.readProgram source with
    | error e =>
      have impossible := readable
      rw [h] at impossible
      cases impossible
    | ok a => exact ⟨a, rfl, deployment_follows_plan.2 source a h⟩

end HostPlan.Deploy
