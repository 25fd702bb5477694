import HostPlan.Proofs.Command.Traffic
/-!
The courses that a deployment can take. It halts before anything is sent, it only rehearses, it
finds no platform or gets no project there, or else it comes to the resources.
-/
namespace HostPlan.Command

open Remote

/-- Where a credential is looked for on the command line. -/
def flagFor (args : DeployArguments) : Credential → Option String
  | .address => args.apiUrl
  | .token => args.token

def configuredFor (c : Config) : Credential → Value
  | .address => c.platform.apiUrl
  | .token => c.platform.token

namespace World

variable (w : World) (s : Session) (args : DeployArguments) (c : Config)

/-- A credential of a real run: the first of the flag, the variable and the configuration that says
something, or else what the user types. -/
def credential (k : Credential) : Scalar :=
  Credential.chosen
    (Credential.written (given (flagFor args k)) (given (w.environment k.environmentName))
      (Config.plain (configuredFor c k)))
    (w.prompt k)

def access : Access where
  address := (w.credential args c .address).display
  token := (w.credential args c .token).display

/-- The test of the connection. -/
def probed : Remote.Request × Outcome :=
  ((w.access args c).probe, w.remote [] (w.access args c).probe)

/-- The creation of a project, right behind the test of the connection. -/
def founded : Call × Outcome :=
  let call := Call.createProject (aim s args c).projectName .null
  (call, w.remote [w.probed args c] ((w.access args c).request call))

end World

/-- Everything is there that has to be known before anything is sent. -/
structure Ready (w : World) (s : Session) (args : DeployArguments) (c : Config) (a : Assembly) :
    Prop where
  file : w.isFile (Path.absolute s.directory args.file) = true
  config : w.told (config s args.config) = .ok c
  credentials : args.dryRun = false → ∀ k, (w.credential args c k).isFilled = true
  server : args.dryRun = false → (chosen args.target.serverId c.platform.serverId).isFilled = true
  program : w.told (readProgram s (Path.absolute s.directory args.file)) = .ok a
  complete : a.problems = []

/-- The answer is an object with an identifier. -/
def Identifies (o : Outcome) (uuid : Value) : Prop :=
  ∃ fields, o.answer "/projects" = .success (.record fields) ∧
    Entries.get? "uuid" fields = some uuid ∧ uuid.isFilled = true

section Stages

variable (w : World) (s : Session) (args : DeployArguments) (c : Config)

/-- The connection stands, and a project is known: the one that is named, or a new one. -/
inductive Placed : Value → Traffic → Prop
  | named (connected : (w.probed args c).2.connection.isSuccess = true)
    (name : (chosen args.target.projectId c.platform.projectId).isFilled = true) :
    Placed (chosen args.target.projectId c.platform.projectId) [w.probed args c]
  | founded {uuid : Value} (connected : (w.probed args c).2.connection.isSuccess = true)
    (nameless : (chosen args.target.projectId c.platform.projectId).isFilled = false)
    (identified : Identifies (w.founded s args c).2 uuid) :
    Placed uuid (w.probed args c :: overLine (w.access args c) [w.founded s args c])

/-- The resources of a program, deployed into a project. -/
def resourcePhase (project : Value) (m : Model) : Talk Deploy.Summary :=
  let a := { aim s args c with project }
  (Deploy.deploy (settings args c a) m).run (serve s (w.access args c) a)

def rehearsal (m : Model) : Talk Deploy.Summary :=
  (Deploy.rehearse m).run (serve s ⟨"", ""⟩ (aim s args c))

end Stages

/-- The resources were reached, and this became of them. -/
inductive Reached (w : World) (s : Session) (args : DeployArguments) : Deploy.Summary → Prop
  | rehearsed {c : Config} {a : Assembly} (ready : Ready w s args c a) (dry : args.dryRun = true) :
    Reached w s args (w.told (rehearsal s args c a.model))
  | deployed {c : Config} {a : Assembly} {project : Value} {before : Traffic}
    (ready : Ready w s args c a) (real : args.dryRun = false)
    (placed : Placed w s args c project before) :
    Reached w s args (w.talk (resourcePhase w s args c project a.model) before).1

/-- How a command ends whose resources were reached. -/
def ending (summary : Deploy.Summary) : Exit := .code (if summary.failed = 0 then 0 else 1)

inductive Course (w : World) (s : Session) (args : DeployArguments) : Exit → Traffic → Prop
  | halted {e : Exit} (shut : ∀ c a, ¬ Ready w s args c a)
    (ends : e = .code 1 ∨ ∃ b, e = .broken b) : Course w s args e []
  | rehearsed {c : Config} {a : Assembly} (ready : Ready w s args c a) (dry : args.dryRun = true) :
    Course w s args (ending (w.told (rehearsal s args c a.model))) []
  | unconnected {c : Config} {a : Assembly} (ready : Ready w s args c a)
    (real : args.dryRun = false) (refused : (w.probed args c).2.connection.isSuccess = false) :
    Course w s args (.code 1) [w.probed args c]
  | unplaced {c : Config} {a : Assembly} (ready : Ready w s args c a) (real : args.dryRun = false)
    (connected : (w.probed args c).2.connection.isSuccess = true)
    (nameless : (chosen args.target.projectId c.platform.projectId).isFilled = false)
    (unidentified : ∀ uuid, ¬ Identifies (w.founded s args c).2 uuid) :
    Course w s args (.code 1) (w.probed args c :: overLine (w.access args c) [w.founded s args c])
  | deployed {c : Config} {a : Assembly} {project : Value} {before : Traffic}
    (ready : Ready w s args c a) (real : args.dryRun = false)
    (placed : Placed w s args c project before) :
    Course w s args (ending (w.talk (resourcePhase w s args c project a.model) before).1)
      (w.talk (resourcePhase w s args c project a.model) before).2

section Steps

variable (w : World) (s : Session)

theorem told_programFile? (file : String) :
    w.told (programFile? s file) =
      if w.isFile (Path.absolute s.directory file) then some (Path.absolute s.directory file)
      else none := by
  unfold World.told programFile?
  rw [World.talk_bind, World.talk_isFile]
  cases w.isFile (Path.absolute s.directory file) <;> rfl

theorem told_credential (k : Credential) (flag : Option String) (configured : Value)
    (mayAsk : Bool) :
    w.told (Command.credential k flag configured mayAsk) =
      Credential.chosen
        (Credential.written (given flag) (given (w.environment k.environmentName))
          (Config.plain configured))
        (if mayAsk then w.prompt k else none) := by
  unfold World.told Command.credential
  rw [World.talk_bind, World.talk_environment]
  simp only
  generalize Credential.written _ _ _ = written
  cases filled : written.isFilled with
  | true => cases mayAsk <;> simp [World.talk_pure, Credential.chosen, filled]
  | false => cases mayAsk <;> rfl

theorem told_address (args : DeployArguments) (c : Config) :
    w.told (Command.credential .address args.apiUrl c.platform.apiUrl true) =
      w.credential args c .address :=
  told_credential w _ _ _ _

theorem told_token (args : DeployArguments) (c : Config) :
    w.told (Command.credential .token args.token c.platform.token true) =
      w.credential args c .token :=
  told_credential w _ _ _ _

theorem problems_eq_nil_iff {known : Credential → Scalar} :
    Credential.problems (known .address) (known .token) = [] ↔ ∀ k, (known k).isFilled = true := by
  constructor
  · intro none k
    cases k <;> simp_all [Credential.problems]
  · intro filled
    simp [Credential.problems, filled]

theorem talk_conclude (summary : Deploy.Summary) (sent : Traffic) :
    w.talk (conclude summary) sent = (ending summary, sent) := by
  rw [w.talk_quiet sent (quiet_conclude summary)]
  unfold World.told conclude ending
  rw [World.talk_bind, World.talk_bind]
  split <;> rfl

theorem talk_connected (access : Access) (sent : Traffic) :
    w.talk (connected access) sent =
      ((w.remote sent access.probe).connection.isSuccess,
        sent ++ [(access.probe, w.remote sent access.probe)]) := by
  unfold connected
  rw [World.talk_bind, World.talk_display, World.talk_bind, World.talk_request]
  cases (w.remote sent access.probe).connection <;> rfl

theorem field_eq_iff_of_filled {fields : List (String × Value)} {key : String} {v : Value}
    (filled : v.isFilled = true) :
    (Value.record fields).field key = v ↔ Entries.get? key fields = some v := by
  rw [Value.field, Option.getD_eq_iff]
  refine or_iff_left ?_
  rintro ⟨-, rfl⟩
  cases filled

theorem createdProject?_eq_some_iff {o : Outcome} {uuid : Value} :
    createdProject? (o.answer "/projects") = some uuid ↔ Identifies o uuid := by
  unfold createdProject? Identifies
  split
  · rename_i fields answered
    constructor
    · intro h
      obtain ⟨filled, rfl⟩ := Option.ite_some_none_eq_some.1 h
      exact ⟨fields, answered, (field_eq_iff_of_filled filled).1 rfl, filled⟩
    · rintro ⟨fields', answered', found, filled⟩
      rw [answered] at answered'
      cases answered'
      have here := (field_eq_iff_of_filled filled).2 found
      simp only [here, filled, if_true]
  · rename_i other
    constructor
    · intro h
      cases h
    · rintro ⟨fields, answered, -⟩
      exact absurd answered (other fields)

theorem talk_projectOf?_named {a : Aim} (h : a.project.isFilled = true) (access : Access)
    (sent : Traffic) : w.talk (projectOf? s access a) sent = (some a.project, sent) := by
  unfold projectOf?
  rw [if_pos h, World.talk_pure]

theorem talk_projectOf?_nameless {a : Aim} (h : a.project.isFilled = false) (access : Access)
    (sent : Traffic) :
    let call := Call.createProject a.projectName .null
    let outcome := w.remote sent (access.request call)
    w.talk (projectOf? s access a) sent =
      (createdProject? (outcome.answer "/projects"),
        sent ++ overLine access [(call, outcome)]) := by
  intro call outcome
  unfold projectOf?
  rw [if_neg (by simp [h])]
  simp only [World.talk_bind, World.talk_display, w.talk_quiet _ (quiet_noteAll s _)]
  rw [World.talk_request]
  simp only
  split
  · rename_i uuid created
    have here : createdProject? (outcome.answer "/projects") = some uuid := created
    rw [here]
    rfl
  · rename_i created
    have here : createdProject? (outcome.answer "/projects") = none := created
    rw [here]
    rfl

end Steps

section Runs

variable {w : World} {s : Session} {args : DeployArguments} {c : Config} {a : Assembly}

theorem ready_config {c' : Config} {a' : Assembly} (found : w.told (config s args.config) = .ok c)
    (ready : Ready w s args c' a') : c' = c := by
  have := ready.config.symm.trans found
  exact Except.ok.inj this

theorem course_of_perform (ready : Ready w s args c a) (real : args.dryRun = false) :
    Course w s args
      (w.talk (perform s args c (aim s args c) (w.access args c) a.model) []).1
      (w.talk (perform s args c (aim s args c) (w.access args c) a.model) []).2 := by
  unfold perform
  rw [World.talk_bind, talk_connected]
  simp only
  cases connected : (w.probed args c).2.connection.isSuccess with
  | false =>
    have here : (w.remote [] (w.access args c).probe).connection.isSuccess = false := connected
    rw [here]
    exact .unconnected ready real connected
  | true =>
    have here : (w.remote [] (w.access args c).probe).connection.isSuccess = true := connected
    rw [here, if_pos rfl, World.talk_bind]
    cases name : (chosen args.target.projectId c.platform.projectId).isFilled with
    | true =>
      rw [talk_projectOf?_named w s (a := aim s args c) name]
      simp only [World.talk_bind, talk_conclude]
      exact .deployed ready real (.named connected name)
    | false =>
      have asked : w.talk (projectOf? s (w.access args c) (aim s args c)) [w.probed args c] =
          (createdProject? ((w.founded s args c).2.answer "/projects"),
            w.probed args c :: overLine (w.access args c) [w.founded s args c]) :=
        talk_projectOf?_nameless w s name _ _
      have before : [] ++ [((w.access args c).probe, w.remote [] (w.access args c).probe)] =
        [w.probed args c] := rfl
      rw [before, asked]
      cases created : createdProject? ((w.founded s args c).2.answer "/projects") with
      | none =>
        refine .unplaced ready real connected name fun uuid identified => ?_
        rw [← createdProject?_eq_some_iff, created] at identified
        cases identified
      | some uuid =>
        simp only [World.talk_bind, talk_conclude]
        exact .deployed ready real
          (.founded connected name (createdProject?_eq_some_iff.1 created))

/-- Nothing is sent in a rehearsal. -/
theorem talk_rehearsal (m : Model) :
    w.talk (rehearsal s args c m) [] = (w.told (rehearsal s args c m), []) := by
  obtain ⟨calls, sent, none⟩ :=
    talk_run w s ⟨"", ""⟩ (aim s args c) (Deploy.calls_rehearse m) []
  -- A rehearsal makes no call, so that nothing went over the line.
  have empty : calls = [] := by
    rw [List.eq_nil_iff_forall_not_mem]
    intro e he
    obtain ⟨_, impossible, _⟩ := none e he
    exact impossible
  rw [empty] at sent
  exact Prod.ext rfl sent

theorem talk_rehearse (m : Model) :
    w.talk (rehearse s (aim s args c) m) [] = (ending (w.told (rehearsal s args c m)), []) := by
  have rest : w.talk (rehearsal s args c m >>= conclude) [] =
      (ending (w.told (rehearsal s args c m)), []) := by
    rw [World.talk_bind, talk_rehearsal, talk_conclude]
  unfold rehearse
  cases (aim s args c).project.isFilled with
  | true => exact rest
  | false => exact rest

theorem course_of_deployFile {access : Access}
    (file : w.isFile (Path.absolute s.directory args.file) = true)
    (found : w.told (config s args.config) = .ok c)
    (credentials : args.dryRun = false → ∀ k, (w.credential args c k).isFilled = true)
    (server : args.dryRun = false →
      (chosen args.target.serverId c.platform.serverId).isFilled = true)
    (same : args.dryRun = false → access = w.access args c) :
    Course w s args
      (w.talk (deployFile s args c access (Path.absolute s.directory args.file)) []).1
      (w.talk (deployFile s args c access (Path.absolute s.directory args.file)) []).2 := by
  unfold deployFile
  simp only [World.talk_bind, World.talk_display, w.talk_quiet _ (quiet_readProgram s _)]
  cases program : w.told (readProgram s (Path.absolute s.directory args.file)) with
  | error e =>
    refine .halted (fun c' a' ready => ?_) (.inr ⟨_, rfl⟩)
    exact nomatch ready.program.symm.trans program
  | ok a =>
    simp only
    cases complete : a.problems with
    | cons problem rest =>
      have shut : ∀ c' a', ¬ Ready w s args c' a' := by
        intro c' a' ready
        have := Except.ok.inj (ready.program.symm.trans program)
        subst this
        exact nomatch ready.complete.symm.trans complete
      simp only [List.isEmpty_cons, Bool.false_eq_true, if_false, World.talk_bind,
        w.talk_quiet _ (quiet_messages _ _ _)]
      exact .halted shut (.inl rfl)
    | nil =>
      have ready : Ready w s args c a := ⟨file, found, credentials, server, program, complete⟩
      simp only [List.isEmpty_nil, if_true, World.talk_bind, World.talk_display,
        w.talk_quiet _ (quiet_messages _ _ _)]
      cases mode : args.dryRun with
      | true =>
        simp only [if_true, talk_rehearse]
        exact .rehearsed ready mode
      | false =>
        simp only [Bool.false_eq_true, if_false]
        rw [same mode]
        exact course_of_perform ready mode

end Runs

/-- Every deployment takes one of the courses. -/
theorem course_of_deploy (w : World) (s : Session) (args : DeployArguments) :
    Course w s args (w.talk (deploy s args) []).1 (w.talk (deploy s args) []).2 := by
  unfold deploy
  rw [World.talk_bind, w.talk_quiet _ (quiet_programFile? s _), told_programFile?]
  cases file : w.isFile (Path.absolute s.directory args.file) with
  | false => exact .halted (fun c a ready => nomatch ready.file.symm.trans file) (.inl rfl)
  | true =>
    simp only [if_true, World.talk_bind, w.talk_quiet _ (quiet_config s _)]
    cases found : w.told (config s args.config) with
    | error e =>
      have shut : ∀ c a, ¬ Ready w s args c a := fun c a ready =>
        nomatch ready.config.symm.trans found
      simp only [w.talk_quiet _ (quiet_withoutConfig e)]
      cases e with
      | refused p => exact .halted shut (.inl rfl)
      | undecodable => exact .halted shut (.inr ⟨_, rfl⟩)
      | unspellable => exact .halted shut (.inr ⟨_, rfl⟩)
    | ok c =>
      simp only [World.talk_bind, w.talk_quiet _ (quiet_credential _ _ _ _)]
      cases mode : args.dryRun with
      | true =>
        -- Nothing is missing in a dry run, and no address is used.
        simp only [if_true, List.isEmpty_nil, Bool.not_true, Bool.false_and, Bool.false_eq_true,
          if_false]
        have real : ∀ {p : Prop}, args.dryRun = false → p := fun h => nomatch h.symm.trans mode
        exact course_of_deployFile file found real real real
      | false =>
        simp only [Bool.false_eq_true, if_false, Bool.not_false, Bool.true_and,
          told_address w args c, told_token w args c]
        cases missing : Credential.problems (w.credential args c .address)
            (w.credential args c .token) with
        | cons problem rest =>
          have shut : ∀ c' a, ¬ Ready w s args c' a := by
            intro c' a ready
            rw [ready_config found ready] at ready
            rw [problems_eq_nil_iff.2 (ready.credentials mode)] at missing
            cases missing
          simp only [List.isEmpty_cons, Bool.not_false, if_true, World.talk_bind,
            w.talk_quiet _ (quiet_messages _ _ _)]
          exact .halted shut (.inl rfl)
        | nil =>
          simp only [List.isEmpty_nil, Bool.not_true, Bool.false_eq_true, if_false]
          cases server : (aim s args c).server.isFilled with
          | false =>
            have shut : ∀ c' a, ¬ Ready w s args c' a := by
              intro c' a ready
              rw [ready_config found ready] at ready
              exact nomatch (ready.server mode).symm.trans server
            exact .halted shut (.inl rfl)
          | true =>
            simp only [Bool.not_true, Bool.false_eq_true, if_false]
            exact course_of_deployFile file found (fun _ => problems_eq_nil_iff.1 missing)
              (fun _ => server) (fun _ => rfl)

end HostPlan.Command
