import HostPlan.Proofs.Command.World
import HostPlan.Proofs.Deploy.Turn
/-!
What a deployment sends once its target is known: the three listings, and the creation of resources
whose payloads name the target.
-/
namespace HostPlan.Deploy

open Remote

variable (s : Settings)

/-- What a deployment may call: a listing, or the creation of one of its resources. -/
def Expected (rs : List Resource) (c : Call) : Prop :=
  c = .databases ∨ c = .applications ∨ c = .services ∨ ∃ r ∈ rs, call? s r = some c

/-- A dialogue that makes only calls of a kind. -/
def Calls {α : Type} (P : Call → Prop) (d : Talk α) : Prop := d.All fun q => ∀ c, q = .call c → P c

variable {P : Call → Prop} {α β : Type}

theorem Calls.bind {d : Talk α} {f : α → Talk β} (first : Calls P d) (then_ : ∀ a, Calls P (f a)) :
    Calls P (d >>= f) := Dialogue.All.bind first then_

@[simp] theorem calls_pure (a : α) : Calls P (pure a : Talk α) := Dialogue.All.pure a

@[simp] theorem calls_say (line : String) : Calls P (say line) :=
  ⟨fun _ h => (by cases h), fun _ => trivial⟩

@[simp] theorem calls_log (level : Level) (part text : String) : Calls P (log level part text) :=
  ⟨fun _ h => (by cases h), fun _ => trivial⟩

theorem calls_request {c : Call} (h : P c) : Calls P (request c) :=
  ⟨fun c' h' => (by cases h'; exact h), fun _ => trivial⟩

@[simp] theorem calls_warn (part : String) (texts : List String) : Calls P (warn part texts) := by
  induction texts with
  | nil => exact calls_pure ()
  | cons t rest ih => exact (calls_log .warning part t).bind fun _ => ih

theorem calls_list (what : String) {c : Call} (h : P c) : Calls P (list what c) :=
  (calls_request h).bind fun _ => (calls_warn _ _).bind fun _ => calls_pure _

theorem calls_deployOne (inventory : Inventory) {r : Resource}
    (h : ∀ c, call? s r = some c → P c) : Calls P (deployOne s inventory r) := by
  refine (calls_say _).bind fun _ => ?_
  cases decided : decision s inventory r with
  | skip identifier => exact (calls_say _).bind fun _ => calls_pure _
  | refuse => exact (calls_say _).bind fun _ => calls_pure _
  | unsupported => exact (calls_say _).bind fun _ => calls_pure _
  | create c =>
    refine (calls_warn _ _).bind fun _ => ?_
    refine (calls_request (h c (call?_of_decision decided))).bind fun _ => ?_
    exact (calls_say _).bind fun _ => calls_pure _

theorem calls_finish (summary : Summary) : Calls P (finish summary) :=
  (calls_log _ _ _).bind fun _ => calls_pure _

/-- A deployment makes no other calls. -/
theorem calls_deploy (m : Model) : Calls (Expected s m.resources) (deploy s m) := by
  refine (calls_say _).bind fun _ => ?_
  refine (calls_list _ (.inl rfl)).bind fun _ => ?_
  refine (calls_list _ (.inr (.inl rfl))).bind fun _ => ?_
  refine (calls_list _ (.inr (.inr (.inl rfl)))).bind fun _ => ?_
  refine (calls_say _).bind fun _ => ?_
  refine Calls.bind ?_ fun _ => calls_finish _
  exact Dialogue.All.mapM fun r hr =>
    calls_deployOne s _ fun c hc => .inr (.inr (.inr ⟨r, hr, hc⟩))

/-- A rehearsal makes no calls at all. -/
theorem calls_rehearse (m : Model) : Calls (fun _ => False) (rehearse m) := by
  refine Calls.bind ?_ fun _ => calls_finish _
  refine Dialogue.All.mapM fun r _ => ?_
  exact (calls_say _).bind fun _ => (calls_say _).bind fun _ => calls_pure _

end HostPlan.Deploy

namespace HostPlan.Command

open Remote

/-- Calls as they go over the line. -/
def overLine (access : Access) (calls : List (Call × Outcome)) : Traffic :=
  calls.map fun e => (access.request e.1, e.2)

section Serve

variable (w : World) (s : Session) (access : Access) (a : Aim)

/-- A question of a deployment is sent if it is a call, and nothing else is. -/
theorem talk_serve (q : Deploy.Query) (sent : Traffic) :
    ∃ calls, (w.talk (serve s access a q) sent).2 = sent ++ overLine access calls ∧
      ∀ e ∈ calls, ∃ c, q = .call c ∧ e.1 = a.inCall c := by
  cases q with
  | say line => exact ⟨[], by simp [overLine]; rfl, by simp⟩
  | log n =>
    refine ⟨[], ?_, by simp⟩
    rw [serve, w.talk_quiet sent (quiet_note s n)]
    simp [overLine]
  | call c =>
    let outcome := w.remote sent (access.request (a.inCall c))
    refine ⟨[(a.inCall c, outcome)], ?_, by simp⟩
    simp only [serve, World.talk_bind, World.talk_pure, w.talk_quiet _ (quiet_noteAll s _)]
    rfl

/-- A deployment whose calls are of a kind sends such calls, aimed at its target. -/
theorem talk_run {α : Type} {P : Call → Prop} {d : Deploy.Talk α} (h : Deploy.Calls P d)
    (sent : Traffic) :
    ∃ calls, (w.talk (d.run (serve s access a)) sent).2 = sent ++ overLine access calls ∧
      ∀ e ∈ calls, ∃ c, P c ∧ e.1 = a.inCall c := by
  -- Along the dialogue: what the first question sends, and then the rest after its answer.
  induction d generalizing sent with
  | done x => exact ⟨[], by simp [overLine, Dialogue.run], by simp⟩
  | ask q next ih =>
    obtain ⟨now, sentNow, eachNow⟩ := talk_serve w s access a q sent
    obtain ⟨later, sentLater, eachLater⟩ :=
      ih (w.talk (serve s access a q) sent).1 (h.2 _) (w.talk (serve s access a q) sent).2
    refine ⟨now ++ later, ?_, ?_⟩
    · rw [Dialogue.run, World.talk_bind, sentLater, sentNow]
      simp [overLine]
    · intro e he
      rcases List.mem_append.1 he with he | he
      · obtain ⟨c, rfl, same⟩ := eachNow e he
        exact ⟨c, h.1 c rfl, same⟩
      · exact eachLater e he

end Serve

/-- The call creates a project. -/
def CreatesProject (c : Call) : Prop := c.verb = "POST" ∧ c.path = "/projects"

/-- Whatever the call creates, it creates it in the project. -/
def AimedAt (project : Value) (c : Call) : Prop :=
  c.verb = "POST" → ∃ payload, c.body? = some payload ∧ payload.field "project_uuid" = project

theorem createsProject_iff (c : Call) :
    CreatesProject c ↔ ∃ name description, c = .createProject name description := by
  constructor
  · rintro ⟨sends, path⟩
    cases c with
    | createProject name description => exact ⟨name, description, rfl⟩
    | createEnvironment project name =>
      have long := congrArg (fun text => text.toList.length) path
      simp [Call.path] at long
    | createDatabase engine payload => cases engine <;> exact absurd path (by simp [Call.path])
    | createApplication source payload => cases source <;> exact absurd path (by simp [Call.path])
    | createService payload => exact absurd path (by simp [Call.path])
    | projects => exact absurd sends (by decide)
    | databases => exact absurd sends (by decide)
    | applications => exact absurd sends (by decide)
    | services => exact absurd sends (by decide)
  · rintro ⟨name, description, rfl⟩
    exact ⟨rfl, rfl⟩

theorem aimedAt_of_reading {project : Value} {c : Call} (h : c.body? = none) :
    AimedAt project c := by
  intro sends
  simp [Call.verb, h] at sends

theorem aimedAt_of_body {project payload : Value} {c : Call} (h : c.body? = some payload)
    (aimed : payload.field "project_uuid" = project) : AimedAt project c :=
  fun _ => ⟨payload, h, aimed⟩

section Expected

variable {s : Deploy.Settings} {rs : List Resource} {c : Call}

theorem aimedAt_of_expected (h : Deploy.Expected s rs c) (a : Aim) :
    AimedAt a.project (a.inCall c) := by
  rcases h with rfl | rfl | rfl | ⟨r, -, hr⟩
  · exact aimedAt_of_reading rfl
  · exact aimedAt_of_reading rfl
  · exact aimedAt_of_reading rfl
  -- Every payload begins with the fields of the target, whatever follows them.
  · cases r with
    | database d =>
      simp only [Deploy.call?] at hr
      split at hr
      · cases hr
        exact aimedAt_of_body rfl rfl
      · cases hr
    | storage r =>
      cases hr
      exact aimedAt_of_body rfl rfl
    | service r =>
      cases hr
      exact aimedAt_of_body rfl rfl
    | application r =>
      cases hr
      exact aimedAt_of_body rfl rfl

theorem not_createsProject_of_expected (h : Deploy.Expected s rs c) (a : Aim) :
    ¬ CreatesProject (a.inCall c) := by
  rw [createsProject_iff]
  rintro ⟨name, description, same⟩
  rcases h with rfl | rfl | rfl | ⟨r, -, hr⟩
  · cases same
  · cases same
  · cases same
  · cases r with
    | database d =>
      simp only [Deploy.call?] at hr
      split at hr
      · cases hr
        cases same
      · cases hr
    | storage r =>
      cases hr
      cases same
    | service r =>
      cases hr
      cases same
    | application r =>
      cases hr
      cases same

end Expected
end HostPlan.Command
