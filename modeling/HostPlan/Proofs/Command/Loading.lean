import HostPlan.Command.Run
import HostPlan.Proofs.Config.File
/-!
What a command makes of a configuration that it does not get. Where the file settles the matter, the
problem is reported and the run fails in an orderly way; where it does not, the run breaks down.
-/
namespace HostPlan

namespace Dialogue

variable {Q : Type} {R : Q → Type} {α β : Type}

/-- Answers lead one way: what is said next and what comes out depends on nothing else. -/
theorem Run.unique {d : Dialogue Q R α} {t t' u u' : List (Σ q, R q)} {a a' : α}
    (run : Run d t a) (run' : Run d t' a') (same : t ++ u = t' ++ u') : t = t' ∧ a = a' := by
  induction run generalizing t' with
  | done a =>
    cases run'
    exact ⟨rfl, rfl⟩
  | ask r _ ih =>
    cases run' with
    | ask r' rest =>
      cases (List.cons.inj same).1
      obtain ⟨rfl, rfl⟩ := ih rest (List.cons.inj same).2
      exact ⟨rfl, rfl⟩

/-- Behind a part that is known, the rest decides. -/
theorem run_bind_iff {d : Dialogue Q R α} {f : α → Dialogue Q R β} {t u : List (Σ q, R q)} {a : α}
    {b : β} (first : Run d t a) : Run (d >>= f) (t ++ u) b ↔ Run (f a) u b := by
  constructor
  · intro whole
    obtain ⟨t', u', a', same, first', second⟩ := Run.of_bind whole
    obtain ⟨rfl, rfl⟩ := first.unique first' same
    rw [List.append_cancel_left same]
    exact second
  · exact first.bind

theorem run_pure_iff {t : List (Σ q, R q)} {a b : α} :
    Run (pure a : Dialogue Q R α) t b ↔ t = [] ∧ b = a := by
  constructor
  · intro run
    cases run
    exact ⟨rfl, rfl⟩
  · rintro ⟨rfl, rfl⟩
    exact .done _

theorem run_question_iff {q : Q} {t : List (Σ q, R q)} {a : R q} :
    Run (question q) t a ↔ t = [⟨q, a⟩] := by
  constructor
  · intro run
    cases run with
    | ask r rest =>
      cases rest
      rfl
  · rintro rfl
    exact .ask a (.done a)

theorem Run.question_bind {q : Q} {f : R q → Dialogue Q R β} {r : R q} {t : List (Σ q, R q)} {b : β}
    (rest : Run (f r) t b) : Run (question q >>= f) (⟨q, r⟩ :: t) b := .ask r rest

theorem All.of_run {P : Q → Prop} {d : Dialogue Q R α} {t : List (Σ q, R q)} {a : α}
    (all : d.All P) (run : Run d t a) : ∀ e ∈ t, P e.1 := by
  induction run with
  | done => exact nofun
  | ask r _ ih => exact List.forall_mem_cons.2 ⟨all.1, ih (all.2 r)⟩

end Dialogue

namespace Command

open Dialogue

/-- Questions in their order, each with its answer. -/
abbrev Exchange := List (Σ q, Response q)

def Query.isRead : Query → Bool
  | .read _ => true
  | _ => false

/-- A dialogue that reads no file, whatever it is told. -/
def Unread {α : Type} (d : Talk α) : Prop := d.All fun q => q.isRead = false

theorem unread_ask {q : Query} (h : q.isRead = false) : Unread (ask q) := All.question h

theorem Unread.bind {α β : Type} {d : Talk α} {f : α → Talk β} (first : Unread d)
    (then_ : ∀ a, Unread (f a)) : Unread (d >>= f) := All.bind first then_

section Unread

variable (s : Session)

theorem unread_report (text : String) : Unread (report text) := unread_ask rfl

theorem unread_note (n : Note) : Unread (note s n) := by
  unfold note
  split
  · exact unread_report _
  · exact All.pure ()

theorem unread_noteAll (ns : List Note) : Unread (noteAll s ns) := by
  induction ns with
  | nil => exact All.pure ()
  | cons n rest ih => exact (unread_note s n).bind fun _ => ih

theorem unread_programFile? (file : String) : Unread (programFile? s file) := by
  refine (unread_ask (by rfl)).bind fun there => ?_
  split
  · exact All.pure _
  · exact (unread_report _).bind fun _ => All.pure _

theorem unread_firstFile? (paths : List String) : Unread (firstFile? paths) := by
  induction paths with
  | nil => exact All.pure _
  | cons path rest ih =>
    refine (unread_ask (by rfl)).bind fun there => ?_
    split
    · exact All.pure _
    · exact ih

end Unread

/-- The files that were read, with what was in them. -/
def Reads (t : Exchange) (path : String) (contents : File.Contents) : Prop :=
  (⟨.read path, contents⟩ : Σ q, Response q) ∈ t

section Loading

variable {s : Session} {t u : Exchange} {path : String} {contents : File.Contents}

theorem not_reads {α : Type} {d : Talk α} {a : α} (unread : Unread d) (run : Run d t a) :
    ¬ Reads t path contents := fun read => nomatch unread.of_run run _ read

theorem reads_append_iff : Reads (t ++ u) path contents ↔ Reads t path contents ∨
    Reads u path contents := List.mem_append

theorem reads_cons_iff {path' : String} {contents' : File.Contents} :
    Reads (⟨.read path', contents'⟩ :: t) path contents ↔
      (path = path' ∧ contents = contents') ∨ Reads t path contents := by
  refine List.mem_cons.trans (or_congr_left ⟨?_, ?_⟩)
  · intro same
    cases same
    exact ⟨rfl, rfl⟩
  · rintro ⟨rfl, rfl⟩
    rfl

/-- One file is read, and it is the one that the configuration comes from. -/
def LoadedFrom (t : Exchange) (loaded : Except Config.Failure Config) : Prop :=
  ∃ path contents, loaded = Config.ofFile path contents ∧
    ∀ path' contents', Reads t path' contents' ↔ path' = path ∧ contents' = contents

theorem loadedFrom_of_readConfig {loaded : Except Config.Failure Config}
    (run : Run (readConfig s path) t loaded) : LoadedFrom t loaded := by
  obtain ⟨t₁, rest, contents, rfl, read, run⟩ := Run.of_bind run
  have asked := run_question_iff.1 read
  obtain ⟨t₂, t₃, _, rfl, noted, done⟩ := Run.of_bind run
  obtain ⟨rfl, rfl⟩ := run_pure_iff.1 done
  refine ⟨path, contents, rfl, fun path' contents' => ?_⟩
  rw [asked, List.append_nil, List.singleton_append, reads_cons_iff]
  exact or_iff_left (not_reads (unread_noteAll s _) noted)

/-- A configuration that is not there comes from a file. -/
theorem loadedFrom_of_config {named : Option String} {e : Config.Failure}
    (run : Run (config s named) t (.error e)) : LoadedFrom t (.error e) := by
  have searched : ∀ t, Run (config.found s) t (.error e) → LoadedFrom t (.error e) := by
    intro t run
    obtain ⟨t₁, t₂, place, rfl, looked, run⟩ := Run.of_bind run
    cases place with
    | none => exact nomatch (run_pure_iff.1 run).2
    | some path =>
      obtain ⟨path, contents, loaded, only⟩ := loadedFrom_of_readConfig run
      refine ⟨path, contents, loaded, fun path' contents' => ?_⟩
      rw [reads_append_iff, only]
      exact or_iff_right (not_reads (unread_firstFile? _) looked)
  unfold config at run
  split at run
  · split at run
    · exact searched t run
    · exact loadedFrom_of_readConfig run
  · exact searched t run

end Loading

/-- A command line that asks for a command on a program and a configuration. -/
inductive Wants (directory : String) (line : List String) :
    Session → String → Option String → Prop where
  | generate {i : Invocation} {args : GenerateArguments} (parsed : Invocation.ofLine line = .ok i)
    (asked : i.request = some (.generate args)) :
    Wants directory line ⟨directory, i.verbose⟩ args.file args.config
  | deploy {i : Invocation} {args : DeployArguments} (parsed : Invocation.ofLine line = .ok i)
    (asked : i.request = some (.deploy args)) :
    Wants directory line ⟨directory, i.verbose⟩ args.file args.config

/-- The program has been found, but no configuration could be made. -/
inductive Unconfigured (s : Session) (file : String) (named : Option String) :
    Exchange → Config.Failure → Prop where
  | intro {t u : Exchange} {path : String} {e : Config.Failure}
    (found : Run (programFile? s file) t (some path)) (loaded : Run (config s named) u (.error e)) :
    Unconfigured s file named (t ++ u) e

/-- What is left to say is one message, and the exit code is one. -/
def FailsWithMessage (d : Talk Exit) (t : Exchange) : Prop :=
  ∃ message, ∀ u x, Run d (t ++ u) x ↔ u = [⟨.report message, ()⟩] ∧ x = .code 1

theorem run_report_iff {message : String} {n : Nat} {u : Exchange} {x : Exit} :
    Run (do report message; pure (.code n)) u x ↔ u = [⟨.report message, ()⟩] ∧ x = .code n := by
  constructor
  · intro run
    obtain ⟨u, v, _, rfl, said, done⟩ := Run.of_bind run
    obtain ⟨rfl, rfl⟩ := run_pure_iff.1 done
    have asked := run_question_iff.1 said
    exact ⟨by rw [asked, List.append_nil], rfl⟩
  · rintro ⟨rfl, rfl⟩
    exact (run_question_iff ).2 rfl |>.bind (.done _)

section Ending

variable {directory : String} {line : List String} {s : Session} {file : String}
  {named : Option String} {t : Exchange} {e : Config.Failure}

theorem run_eq_follow {i : Invocation} {r : Request} (parsed : Invocation.ofLine line = .ok i)
    (asked : i.request = some r) : run directory line = follow ⟨directory, i.verbose⟩ r := by
  have some : line.isEmpty = false := by
    cases line with
    | nil =>
      have nothing : Invocation.ofLine [] = .ok ⟨false, none⟩ := by decide +kernel
      cases parsed.symm.trans nothing
      cases asked
    | cons => rfl
  unfold run
  rw [some, if_neg Bool.false_ne_true, parsed]
  simp only [asked]

/-- Without a configuration nothing else is done. -/
theorem run_unconfigured (wants : Wants directory line s file named)
    (unconfigured : Unconfigured s file named t e) (u : Exchange) (x : Exit) :
    Run (run directory line) (t ++ u) x ↔ Run (withoutConfig e) u x := by
  obtain ⟨found, loaded⟩ := unconfigured
  cases wants with
  | generate parsed asked =>
    rw [run_eq_follow parsed asked, List.append_assoc]
    exact (run_bind_iff found).trans (run_bind_iff loaded)
  | deploy parsed asked =>
    rw [run_eq_follow parsed asked, List.append_assoc]
    exact (run_bind_iff found).trans (run_bind_iff loaded)

theorem failsWithMessage_iff (wants : Wants directory line s file named)
    (unconfigured : Unconfigured s file named t e) :
    FailsWithMessage (run directory line) t ↔ ∃ p, e = .refused p := by
  have rest := run_unconfigured wants unconfigured
  have broken : ∀ b, withoutConfig e = pure (.broken b) →
      ¬ FailsWithMessage (run directory line) t := by
    rintro b ends ⟨message, whole⟩
    have said := (whole [] (.broken b)).1 ((rest _ _).2 (by rw [ends]; exact .done _))
    cases said.1
  cases e with
  | refused p =>
    exact iff_of_true ⟨_, fun u x => (rest u x).trans run_report_iff⟩ ⟨p, rfl⟩
  | undecodable => exact iff_of_false (broken _ rfl) nofun
  | unspellable => exact iff_of_false (broken _ rfl) nofun

theorem loadedFrom_of_unconfigured (unconfigured : Unconfigured s file named t e) :
    LoadedFrom t (.error e) := by
  obtain ⟨found, loaded⟩ := unconfigured
  obtain ⟨path, contents, same, only⟩ := loadedFrom_of_config loaded
  refine ⟨path, contents, same, fun path' contents' => ?_⟩
  rw [reads_append_iff, only]
  exact or_iff_right (not_reads (unread_programFile? s file) found)

end Ending

section Samples

/-- The program is there, but the file that is named has no data. -/
theorem unconfigured_of_named {s : Session} {file path : String} {contents : File.Contents}
    {e : Config.Failure} (some_ : path ≠ "")
    (fails : Config.dataOf (Path.tidy path) contents = .error e) :
    Unconfigured s file (some path)
      [⟨.isFile (Path.absolute s.directory file), true⟩, ⟨.read (Path.tidy path), contents⟩] e := by
  have found : Run (programFile? s file) [⟨.isFile (Path.absolute s.directory file), true⟩]
      (some (Path.absolute s.directory file)) := Run.question_bind (.done _)
  have loaded : Config.ofFile (Path.tidy path) contents = .error e := by
    rw [Config.ofFile, fails]
    rfl
  have quiet : Config.fileNotes (Path.tidy path) contents = [] := by
    rw [Config.fileNotes, fails]
  have named : config s (some path) = readConfig s (Path.tidy path) := if_neg some_
  refine .intro found ?_
  rw [named, ← loaded]
  refine Run.question_bind ?_
  rw [quiet]
  exact .done _

/-- A command line with a program and a configuration. -/
def line : List String := ["generate", "Program.cs", "-c", "plan.yaml"]

theorem wants_line : Wants "/work" line ⟨"/work", false⟩ "Program.cs" (some "plan.yaml") := by
  have parsed : Invocation.ofLine line = .ok
      ⟨false, some (.generate { file := "Program.cs", config := some "plan.yaml" })⟩ := by
    decide +kernel
  exact .generate parsed rfl

end Samples

end Command
end HostPlan
