import HostPlan.Proofs.Command.Course
/-!
The gates of a deployment. A dry run sends nothing. Otherwise nothing is sent before everything is
known, nothing after a test of the connection that fails, and nothing after a project that was not
created; whatever is created is created in the project.
-/
namespace HostPlan.Command

open Remote

section Only

variable {w : World} {s : Session} {args : DeployArguments} {c : Config} {a : Assembly}

theorem Ready.only {c' : Config} {a' : Assembly} (ready : Ready w s args c a)
    (ready' : Ready w s args c' a') : c' = c ∧ a' = a :=
  ⟨Except.ok.inj (ready'.config.symm.trans ready.config),
    Except.ok.inj (ready'.program.symm.trans ready.program)⟩

theorem Placed.connected {project : Value} {before : Traffic}
    (placed : Placed w s args c project before) :
    (w.probed args c).2.connection.isSuccess = true := by
  cases placed with
  | named connected _ => exact connected
  | founded connected _ _ => exact connected

theorem Identifies.only {o : Outcome} {uuid uuid' : Value} (h : Identifies o uuid)
    (h' : Identifies o uuid') : uuid' = uuid := by
  rw [← createdProject?_eq_some_iff] at h h'
  exact Option.some.inj (h'.symm.trans h)

theorem Placed.only {project project' : Value} {before before' : Traffic}
    (placed : Placed w s args c project before) (placed' : Placed w s args c project' before') :
    project' = project ∧ before' = before := by
  cases placed with
  | named _ name =>
    cases placed' with
    | named => exact ⟨rfl, rfl⟩
    | founded _ nameless _ => exact nomatch name.symm.trans nameless
  | founded _ nameless identified =>
    cases placed' with
    | named _ name => exact nomatch name.symm.trans nameless
    | founded _ _ identified' => exact ⟨identified.only identified', rfl⟩

end Only

section Phase

variable (w : World) (s : Session) (args : DeployArguments) (c : Config)

/-- What is sent for the resources is aimed at the project and creates no other. -/
theorem talk_resourcePhase (project : Value) (m : Model) (before : Traffic) :
    ∃ calls, (w.talk (resourcePhase w s args c project m) before).2 =
        before ++ overLine (w.access args c) calls ∧
      ∀ e ∈ calls, AimedAt project e.1 ∧ ¬ CreatesProject e.1 := by
  let a := { aim s args c with project }
  obtain ⟨calls, sent, each⟩ :=
    talk_run w s (w.access args c) a (Deploy.calls_deploy (settings args c a) m) before
  refine ⟨calls, sent, fun e he => ?_⟩
  obtain ⟨call, expected, same⟩ := each e he
  rw [same]
  exact ⟨aimedAt_of_expected expected a, not_createsProject_of_expected expected a⟩

end Phase

/-- The requests and the end of a deployment, as its gates let them through. -/
structure Gated (w : World) (s : Session) (args : DeployArguments) (n : Nat) (sent : Traffic) :
    Prop where
  dry : args.dryRun = true → sent = []
  /-- Nothing is sent before everything is known, and nothing after a test that fails. -/
  opening : args.dryRun = false → sent ≠ [] → ∃ c a rest, Ready w s args c a ∧
    sent = w.probed args c :: rest ∧ (rest ≠ [] → (w.probed args c).2.connection.isSuccess = true)
  /-- A project is created only if none is named; what follows takes place in the project. -/
  project : args.dryRun = false → ∀ c a, Ready w s args c a →
    (w.probed args c).2.connection.isSuccess = true →
    ∃ calls, sent = w.probed args c :: overLine (w.access args c) calls ∧
      if (chosen args.target.projectId c.platform.projectId).isFilled then
        ∀ e ∈ calls, ¬ CreatesProject e.1 ∧
          AimedAt (chosen args.target.projectId c.platform.projectId) e.1
      else
        ∃ later, calls = w.founded s args c :: later ∧ (∀ e ∈ later, ¬ CreatesProject e.1) ∧
          (later ≠ [] → ∃ uuid, Identifies (w.founded s args c).2 uuid ∧
            ∀ e ∈ later, AimedAt uuid e.1)
  success : n = 0 ↔ ∃ summary, Reached w s args summary ∧ summary.failed = 0
  failure : n ≠ 0 → n = 1

section Parts

variable {w : World} {s : Session} {args : DeployArguments} {n : Nat} {sent : Traffic}

theorem Course.dry {e : Exit} (course : Course w s args e sent) (dry : args.dryRun = true) :
    sent = [] := by
  cases course with
  | halted => rfl
  | rehearsed => rfl
  | unconnected _ real _ => exact nomatch dry.symm.trans real
  | unplaced _ real => exact nomatch dry.symm.trans real
  | deployed _ real _ => exact nomatch dry.symm.trans real

theorem Course.opening {e : Exit} (course : Course w s args e sent) (real : args.dryRun = false)
    (some : sent ≠ []) : ∃ c a rest, Ready w s args c a ∧ sent = w.probed args c :: rest ∧
      (rest ≠ [] → (w.probed args c).2.connection.isSuccess = true) := by
  cases course with
  | halted => exact absurd rfl some
  | rehearsed _ dry => exact nomatch dry.symm.trans real
  | unconnected ready _ _ => exact ⟨_, _, [], ready, rfl, fun more => absurd rfl more⟩
  | unplaced ready _ connected => exact ⟨_, _, _, ready, rfl, fun _ => connected⟩
  | @deployed c a project before ready _ placed =>
    obtain ⟨calls, more, -⟩ := talk_resourcePhase w s args c project a.model before
    rw [more]
    cases placed with
    | named connected _ => exact ⟨c, a, _, ready, rfl, fun _ => connected⟩
    | founded connected _ _ => exact ⟨c, a, _, ready, rfl, fun _ => connected⟩

theorem Course.project {e : Exit} (course : Course w s args e sent) (real : args.dryRun = false)
    {c : Config} {a : Assembly} (ready : Ready w s args c a)
    (connected : (w.probed args c).2.connection.isSuccess = true) :
    ∃ calls, sent = w.probed args c :: overLine (w.access args c) calls ∧
      if (chosen args.target.projectId c.platform.projectId).isFilled then
        ∀ e ∈ calls, ¬ CreatesProject e.1 ∧
          AimedAt (chosen args.target.projectId c.platform.projectId) e.1
      else
        ∃ later, calls = w.founded s args c :: later ∧ (∀ e ∈ later, ¬ CreatesProject e.1) ∧
          (later ≠ [] → ∃ uuid, Identifies (w.founded s args c).2 uuid ∧
            ∀ e ∈ later, AimedAt uuid e.1) := by
  cases course with
  | halted shut _ => exact absurd ready (shut c a)
  | rehearsed _ dry => exact nomatch dry.symm.trans real
  | unconnected ready' _ refused =>
    rw [(ready.only ready').1] at refused
    exact nomatch connected.symm.trans refused
  | unplaced ready' _ _ nameless _ =>
    obtain ⟨rfl, rfl⟩ := ready.only ready'
    refine ⟨[w.founded s args _], rfl, ?_⟩
    rw [if_neg (by simp [nameless])]
    exact ⟨[], rfl, by simp, fun more => absurd rfl more⟩
  | @deployed c' a' project before ready' _ placed =>
    obtain ⟨rfl, rfl⟩ := ready.only ready'
    obtain ⟨calls, more, each⟩ := talk_resourcePhase w s args c' project a'.model before
    rw [more]
    cases placed with
    | named _ name =>
      refine ⟨calls, rfl, ?_⟩
      rw [if_pos name]
      exact fun e he => ⟨(each e he).2, (each e he).1⟩
    | founded _ nameless identified =>
      refine ⟨w.founded s args c' :: calls, rfl, ?_⟩
      rw [if_neg (by simp [nameless])]
      exact ⟨calls, rfl, fun e he => (each e he).2,
        fun _ => ⟨project, identified, fun e he => (each e he).1⟩⟩

/-- The summary of the resources decides how a deployment ends that came to them. -/
theorem Course.reached {e : Exit} (course : Course w s args e sent) {summary : Deploy.Summary}
    (reached : Reached w s args summary) : e = ending summary := by
  cases reached with
  | rehearsed ready dry =>
    cases course with
    | halted shut _ => exact absurd ready (shut _ _)
    | rehearsed ready' _ =>
      obtain ⟨rfl, rfl⟩ := ready.only ready'
      rfl
    | unconnected _ real _ => exact nomatch dry.symm.trans real
    | unplaced _ real => exact nomatch dry.symm.trans real
    | deployed _ real _ => exact nomatch dry.symm.trans real
  | deployed ready real placed =>
    cases course with
    | halted shut _ => exact absurd ready (shut _ _)
    | rehearsed _ dry => exact nomatch dry.symm.trans real
    | unconnected ready' _ refused =>
      obtain ⟨rfl, rfl⟩ := ready.only ready'
      exact nomatch placed.connected.symm.trans refused
    | unplaced ready' _ _ nameless unidentified =>
      obtain ⟨rfl, rfl⟩ := ready.only ready'
      cases placed with
      | named _ name => exact nomatch name.symm.trans nameless
      | founded _ _ identified => exact absurd identified (unidentified _)
    | deployed ready' _ placed' =>
      obtain ⟨rfl, rfl⟩ := ready.only ready'
      obtain ⟨rfl, rfl⟩ := placed.only placed'
      rfl

theorem Course.unreached {e : Exit} (course : Course w s args e sent)
    (unreached : ∀ summary, ¬ Reached w s args summary) : e = .code 1 ∨ ∃ b, e = .broken b := by
  cases course with
  | halted _ ends => exact ends
  | rehearsed ready dry => exact absurd (.rehearsed ready dry) (unreached _)
  | unconnected => exact .inl rfl
  | unplaced => exact .inl rfl
  | deployed ready real placed => exact absurd (.deployed ready real placed) (unreached _)

theorem Course.success (course : Course w s args (.code n) sent) :
    (n = 0 ↔ ∃ summary, Reached w s args summary ∧ summary.failed = 0) ∧ (n ≠ 0 → n = 1) := by
  by_cases some : ∃ summary, Reached w s args summary
  · obtain ⟨summary, reached⟩ := some
    have code : n = if summary.failed = 0 then 0 else 1 := Exit.code.inj (course.reached reached)
    refine ⟨⟨fun zero => ⟨summary, reached, ?_⟩, ?_⟩, fun _ => ?_⟩
    · split at code <;> omega
    · rintro ⟨summary', reached', none⟩
      have code' := Exit.code.inj (course.reached reached')
      rw [code', if_pos none]
    · split at code <;> omega
  · have one : n = 1 := by
      rcases course.unreached fun summary reached => some ⟨summary, reached⟩ with same | ⟨b, same⟩
      · exact Exit.code.inj same
      · cases same
    subst one
    exact ⟨⟨nofun, fun ⟨summary, reached, _⟩ => absurd ⟨summary, reached⟩ some⟩, fun _ => rfl⟩

end Parts

/-- Every deployment that returns has gone through its gates. -/
theorem deploy_gated (w : World) (s : Session) (args : DeployArguments) {n : Nat}
    (returns : (w.talk (deploy s args) []).1 = .code n) :
    Gated w s args n (w.talk (deploy s args) []).2 := by
  have course := course_of_deploy w s args
  rw [returns] at course
  exact {
    dry := course.dry
    opening := course.opening
    project := fun real _ _ ready connected => course.project real ready connected
    success := course.success.1
    failure := course.success.2 }

namespace Sample

/-- A platform that creates whatever it is asked for, and a program with one resource. -/
def welcoming : World where
  isFile path := path == "/work/program.cs"
  isThere _ := true
  read _ := .ok "builder.AddRedis(\"cache\");".toUTF8.toList
  write _ _ := .ok ()
  environment _ := none
  prompt _ := none
  remote _ _ := .response 200 .utf8 "\x7b\"uuid\": \"p1\"\x7d".toUTF8.toList

def session : Session := ⟨"/work", false⟩

def arguments : DeployArguments where
  file := "program.cs"
  apiUrl := some "https://c"
  token := some "t"
  target := { serverId := some "s1" }

def sent : Traffic := (welcoming.talk (deploy session arguments) []).2

end Sample

open Sample in
/-- A new project, and a cache in it. -/
theorem cache_gated :
    (welcoming.talk (deploy session arguments) []).1 = .code 0 ∧
    Gated welcoming session arguments 0 sent ∧
    sent.map (fun e => (e.1.verb, e.1.url)) =
      [("GET", "https://c/api/v1/version"), ("POST", "https://c/api/v1/projects"),
       ("GET", "https://c/api/v1/databases"), ("GET", "https://c/api/v1/applications"),
       ("GET", "https://c/api/v1/services"), ("POST", "https://c/api/v1/databases/redis")] := by
  -- The texts that are shown are never evaluated here, only the answers.
  have returns : (welcoming.talk (deploy session arguments) []).1 = .code 0 := by decide +kernel
  exact ⟨returns, deploy_gated welcoming session arguments returns, by decide +kernel⟩

end HostPlan.Command
