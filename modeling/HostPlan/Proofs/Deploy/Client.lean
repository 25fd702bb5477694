import HostPlan.Deploy.Run
/-!
A deployment against a client. The client is a table: what it answers to each listing, and to the
creation of the resource in each position. A run lists everything once and creates a resource at
most once, so that a table is all that a client can show in one run, however it finds its answers.

Every turn of a run says one line before its calls and one behind them. The inventory has turn 0
and the resource in position `i` has turn `i + 1`, so that a call belongs to the turn that is half
the number of lines before it.
-/
namespace HostPlan.Deploy

open Remote

structure Client where
  databases : Reply
  applications : Reply
  services : Reply
  create : Nat → Reply

/-- What a client was told and asked, every call with its turn. -/
structure Journal where
  lines : List String := []
  calls : List (Nat × Call) := []
  notes : List Note := []

namespace Journal

def turn (j : Journal) : Nat := j.lines.length / 2

def say (j : Journal) (line : String) : Journal := { j with lines := j.lines ++ [line] }

def note (j : Journal) (ns : List Note) : Journal := { j with notes := j.notes ++ ns }

def call (j : Journal) (c : Call) : Journal := { j with calls := j.calls ++ [(j.turn, c)] }

@[simp] theorem lines_say (j : Journal) (line : String) :
    (j.say line).lines = j.lines ++ [line] := rfl

@[simp] theorem lines_note (j : Journal) (ns : List Note) : (j.note ns).lines = j.lines := rfl

@[simp] theorem lines_call (j : Journal) (c : Call) : (j.call c).lines = j.lines := rfl

@[simp] theorem calls_say (j : Journal) (line : String) : (j.say line).calls = j.calls := rfl

@[simp] theorem calls_note (j : Journal) (ns : List Note) : (j.note ns).calls = j.calls := rfl

@[simp] theorem calls_call (j : Journal) (c : Call) :
    (j.call c).calls = j.calls ++ [(j.turn, c)] := rfl

/-- A listing is asked for, and its failure noted. -/
def list (j : Journal) (what : String) (c : Call) (reply : Reply) : Journal :=
  (j.call c).note ((listingWarning? what reply.answer).toList.map fun t => ⟨.warning, "engine", t⟩)

@[simp] theorem lines_list (j : Journal) (what : String) (c : Call) (reply : Reply) :
    (j.list what c reply).lines = j.lines := rfl

@[simp] theorem calls_list (j : Journal) (what : String) (c : Call) (reply : Reply) :
    (j.list what c reply).calls = j.calls ++ [(j.turn, c)] := rfl

@[simp] theorem turn_note (j : Journal) (ns : List Note) : (j.note ns).turn = j.turn := rfl

@[simp] theorem note_nil (j : Journal) : j.note [] = j := by
  simp [note]

end Journal

namespace Client

def reply (client : Client) (turn : Nat) : Call → Reply
  | .databases => client.databases
  | .applications => client.applications
  | .services => client.services
  | _ => client.create (turn - 1)

def answer (client : Client) : (q : Query) → StateM Journal (Response q)
  | .say line => fun j => ((), j.say line)
  | .log n => fun j => ((), j.note [n])
  | .call c => fun j => (client.reply j.turn c, j.call c)

/-- A dialogue with the client, with what was written down before it and behind it. -/
def talk {α : Type} (client : Client) (d : Talk α) (j : Journal) : α × Journal :=
  d.run client.answer j

def inventory (client : Client) : Inventory :=
  .of client.databases.answer client.applications.answer client.services.answer

variable {α β : Type} (client : Client) (j : Journal)

@[simp] theorem talk_pure (a : α) : client.talk (pure a) j = (a, j) := rfl

@[simp] theorem talk_bind (d : Talk α) (f : α → Talk β) :
    client.talk (d >>= f) j = client.talk (f (client.talk d j).1) (client.talk d j).2 :=
  congrFun (Dialogue.run_bind client.answer d f) j

@[simp] theorem talk_map (f : α → β) (d : Talk α) :
    client.talk (f <$> d) j = (f (client.talk d j).1, (client.talk d j).2) := by
  rw [map_eq_pure_bind, talk_bind, talk_pure]

@[simp] theorem talk_say (line : String) : client.talk (say line) j = ((), j.say line) := rfl

@[simp] theorem talk_request (c : Call) :
    client.talk (request c) j = (client.reply j.turn c, j.call c) := rfl

@[simp] theorem talk_log (level : Level) (part text : String) :
    client.talk (log level part text) j = ((), j.note [⟨level, part, text⟩]) := rfl

theorem talk_warn (part : String) (texts : List String) :
    client.talk (warn part texts) j = ((), j.note (texts.map fun t => ⟨.warning, part, t⟩)) := by
  induction texts generalizing j with
  | nil => simp [warn]
  | cons t rest ih =>
    have first : warn part (t :: rest) = log .warning part t >>= fun _ => warn part rest := rfl
    rw [first, talk_bind, talk_log, ih]
    simp [Journal.note]

theorem talk_list (what : String) (c : Call) :
    client.talk (list what c) j =
      ((client.reply j.turn c).answer, j.list what c (client.reply j.turn c)) := by
  simp only [Deploy.list, talk_bind, talk_request, talk_warn, talk_pure, Journal.list]

end Client
end HostPlan.Deploy
