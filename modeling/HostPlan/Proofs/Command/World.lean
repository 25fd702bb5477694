import HostPlan.Command.Deploy
/-!
A command in a world: files, variables, a user and a platform. What the platform answers may depend
on all that it was asked before; nothing else changes while a command runs. What a command sends is
written down, every request with what it came to.
-/
namespace HostPlan.Command

/-- Requests in their order, each with its outcome. -/
abbrev Traffic := List (Remote.Request × Remote.Outcome)

structure World where
  isFile : String → Bool
  isThere : String → Bool
  read : String → File.Contents
  write : String → String → Except File.Fault Unit
  environment : String → Option String
  prompt : Credential → Option String
  remote : Traffic → Remote.Request → Remote.Outcome

def Query.isRequest : Query → Bool
  | .request _ => true
  | _ => false

/-- A dialogue that sends nothing, whatever it is told. -/
def Quiet {α : Type} (d : Talk α) : Prop := d.All fun q => q.isRequest = false

namespace World

def answer (w : World) : (q : Query) → StateM Traffic (Response q)
  | .show _ => pure ()
  | .report _ => pure ()
  | .isFile path => pure (w.isFile path)
  | .isThere path => pure (w.isThere path)
  | .read path => pure (w.read path)
  | .write path text => pure (w.write path text)
  | .environment name => pure (w.environment name)
  | .prompt c => pure (w.prompt c)
  | .request r => fun sent => (w.remote sent r, sent ++ [(r, w.remote sent r)])

/-- A dialogue in the world, with what was sent before it and behind it. -/
def talk {α : Type} (w : World) (d : Talk α) (sent : Traffic) : α × Traffic := d.run w.answer sent

/-- What comes of a dialogue at the start. -/
def told {α : Type} (w : World) (d : Talk α) : α := (w.talk d []).1

variable {α β : Type} (w : World) (sent : Traffic)

@[simp] theorem talk_pure (a : α) : w.talk (pure a) sent = (a, sent) := rfl

@[simp] theorem talk_bind (d : Talk α) (f : α → Talk β) :
    w.talk (d >>= f) sent = w.talk (f (w.talk d sent).1) (w.talk d sent).2 :=
  congrFun (Dialogue.run_bind w.answer d f) sent

theorem talk_isFile (path : String) :
    w.talk (ask (.isFile path)) sent = (w.isFile path, sent) := rfl

theorem talk_environment (name : String) :
    w.talk (ask (.environment name)) sent = (w.environment name, sent) := rfl

theorem talk_request (r : Remote.Request) :
    w.talk (ask (.request r)) sent = (w.remote sent r, sent ++ [(r, w.remote sent r)]) := rfl

@[simp] theorem talk_display (text : String) : w.talk (display text) sent = ((), sent) := rfl

theorem answer_quiet {q : Query} (h : q.isRequest = false) :
    w.answer q sent = ((w.answer q []).1, sent) := by
  cases q with
  | request r => cases h
  | _ => rfl

/-- What comes of a quiet dialogue does not depend on what was sent. -/
theorem talk_quiet {d : Talk α} (h : Quiet d) : w.talk d sent = (w.told d, sent) := by
  induction d with
  | done a => rfl
  | ask q next ih =>
    have step : ∀ t, w.talk (.ask q next) t = w.talk (next (w.answer q []).1) t := by
      intro t
      have := w.answer_quiet t h.1
      exact congrArg (fun p => (next p.1).run w.answer p.2) this
    rw [step, ih _ (h.2 _), told, told, step]

end World

section Quiet

variable {α β : Type} (s : Session)

theorem Quiet.bind {d : Talk α} {f : α → Talk β} (first : Quiet d) (then_ : ∀ a, Quiet (f a)) :
    Quiet (d >>= f) := Dialogue.All.bind first then_

@[simp] theorem quiet_pure (a : α) : Quiet (pure a : Talk α) := Dialogue.All.pure a

theorem quiet_ask {q : Query} (h : q.isRequest = false) : Quiet (ask q) := Dialogue.All.question h

@[simp] theorem quiet_display (text : String) : Quiet (display text) := quiet_ask rfl

@[simp] theorem quiet_report (text : String) : Quiet (report text) := quiet_ask rfl

@[simp] theorem quiet_messages (title : String) (errors warnings : List String) :
    Quiet (messages title errors warnings) := by
  unfold messages
  simp only
  split <;> simp

@[simp] theorem quiet_note (n : Note) : Quiet (note s n) := by
  unfold note
  split <;> simp

@[simp] theorem quiet_noteAll (ns : List Note) : Quiet (noteAll s ns) := by
  induction ns with
  | nil => exact quiet_pure ()
  | cons n rest ih => exact (quiet_note s n).bind fun _ => ih

theorem quiet_programFile? (file : String) : Quiet (programFile? s file) := by
  refine (quiet_ask (by rfl)).bind fun there => ?_
  split
  · exact quiet_pure _
  · exact (quiet_report _).bind fun _ => quiet_pure _

theorem quiet_firstFile? (paths : List String) : Quiet (firstFile? paths) := by
  induction paths with
  | nil => exact quiet_pure _
  | cons path rest ih =>
    refine (quiet_ask (by rfl)).bind fun there => ?_
    split
    · exact quiet_pure _
    · exact ih

theorem quiet_readConfig (path : String) : Quiet (readConfig s path) :=
  (quiet_ask (by rfl)).bind fun _ => (quiet_noteAll s _).bind fun _ => quiet_pure _

theorem quiet_config (named : Option String) : Quiet (config s named) := by
  have found : Quiet (config.found s) := by
    refine (quiet_firstFile? _).bind fun place => ?_
    split
    · exact quiet_readConfig s _
    · exact quiet_pure _
  unfold config
  split
  · split
    · exact found
    · exact quiet_readConfig s _
  · exact found

theorem quiet_withoutConfig (e : Config.Failure) : Quiet (withoutConfig e) := by
  cases e with
  | refused p => exact (quiet_report _).bind fun _ => quiet_pure _
  | undecodable => exact quiet_pure _
  | unspellable => exact quiet_pure _

theorem quiet_readProgram (path : String) : Quiet (readProgram s path) := by
  refine (quiet_ask (by rfl)).bind fun contents => ?_
  split
  · exact (quiet_note s _).bind fun _ => quiet_pure _
  · split
    · exact (quiet_note s _).bind fun _ => quiet_pure _
    · split
      · exact quiet_pure _
      · exact (quiet_noteAll s _).bind fun _ => quiet_pure _

theorem quiet_credential (c : Credential) (flag : Option String) (configured : Value)
    (mayAsk : Bool) : Quiet (credential c flag configured mayAsk) := by
  refine (quiet_ask (by rfl)).bind fun environment => ?_
  simp only
  split
  · exact quiet_pure _
  · exact (quiet_ask (by rfl)).bind fun _ => quiet_pure _

theorem quiet_conclude (summary : Deploy.Summary) : Quiet (conclude summary) := by
  refine (quiet_messages _ _ _).bind fun _ => (quiet_display _).bind fun _ => ?_
  split
  · exact (quiet_display _).bind fun _ => quiet_pure _
  · exact quiet_pure _

end Quiet
end HostPlan.Command
