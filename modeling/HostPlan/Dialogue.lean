/-!
Dialogues: programs that ask questions and go on with the answers. A dialogue is a value, so that
what it asks can be reasoned about; who answers is decided where it is run.
-/
namespace HostPlan

inductive Dialogue (Q : Type) (R : Q → Type) (α : Type) where
  | done (a : α)
  | ask (q : Q) (next : R q → Dialogue Q R α)

namespace Dialogue

variable {Q : Type} {R : Q → Type} {α β : Type}

def bind (d : Dialogue Q R α) (f : α → Dialogue Q R β) : Dialogue Q R β :=
  match d with
  | .done a => f a
  | .ask q next => .ask q fun r => (next r).bind f

instance : Monad (Dialogue Q R) where
  pure := .done
  bind := bind

@[simp] theorem bind_done (d : Dialogue Q R α) : d.bind .done = d := by
  induction d with
  | done a => rfl
  | ask q next ih => simp [bind, ih]

theorem bind_assoc {γ : Type} (d : Dialogue Q R α) (f : α → Dialogue Q R β)
    (g : β → Dialogue Q R γ) : (d.bind f).bind g = d.bind fun a => (f a).bind g := by
  induction d with
  | done a => rfl
  | ask q next ih => simp [bind, ih]

instance : LawfulMonad (Dialogue Q R) :=
  LawfulMonad.mk' _ bind_done (fun _ _ => rfl) bind_assoc

def question (q : Q) : Dialogue Q R (R q) := .ask q .done

/-- The outcome of a dialogue whose questions are answered in some monad. -/
def run {m : Type → Type} [Monad m] (answer : (q : Q) → m (R q)) : Dialogue Q R α → m α
  | .done a => pure a
  | .ask q next => do
    let r ← answer q
    (next r).run answer

/-- Two dialogues in a row are run one after the other. -/
theorem run_bind {m : Type → Type} [Monad m] [LawfulMonad m] (answer : (q : Q) → m (R q))
    (d : Dialogue Q R α) (f : α → Dialogue Q R β) :
    (d.bind f).run answer = d.run answer >>= fun a => (f a).run answer := by
  induction d with
  | done a => simp [bind, run]
  | ask q next ih => simp [bind, run, ih]

/-- Every question on every way through the dialogue is of a kind. -/
def All (P : Q → Prop) : Dialogue Q R α → Prop
  | .done _ => True
  | .ask q next => P q ∧ ∀ r, (next r).All P

section All

variable {P : Q → Prop}

theorem All.pure (a : α) : (pure a : Dialogue Q R α).All P := trivial

theorem All.question {q : Q} (h : P q) : (question q : Dialogue Q R (R q)).All P :=
  ⟨h, fun _ => trivial⟩

theorem All.bind {d : Dialogue Q R α} {f : α → Dialogue Q R β} (first : d.All P)
    (then_ : ∀ a, (f a).All P) : (d >>= f).All P := by
  induction d with
  | done a => exact then_ a
  | ask q next ih => exact ⟨first.1, fun r => ih r (first.2 r)⟩

theorem All.mapM {f : α → Dialogue Q R β} {l : List α} (each : ∀ a ∈ l, (f a).All P) :
    (l.mapM f).All P := by
  induction l with
  | nil => exact All.pure []
  | cons a rest ih =>
    rw [List.mapM_cons]
    refine (each a List.mem_cons_self).bind fun b => ?_
    exact (ih fun a ha => each a (List.mem_cons_of_mem _ ha)).bind fun bs => All.pure (b :: bs)

end All

/-- The dialogue after some answers: its outcome and the questions on the way to it. -/
inductive Run : Dialogue Q R α → List (Σ q, R q) → α → Prop where
  | done (a : α) : Run (.done a) [] a
  | ask {q : Q} {next : R q → Dialogue Q R α} (r : R q) {trace : List (Σ q, R q)} {a : α} :
    Run (next r) trace a → Run (.ask q next) (⟨q, r⟩ :: trace) a

theorem Run.bind {d : Dialogue Q R α} {f : α → Dialogue Q R β} {s t : List (Σ q, R q)} {a : α}
    {b : β} (first : Run d s a) (second : Run (f a) t b) : Run (d.bind f) (s ++ t) b := by
  induction first with
  | done a => exact second
  | ask r _ ih => exact .ask r (ih second)

theorem Run.of_bind {d : Dialogue Q R α} {f : α → Dialogue Q R β} {t : List (Σ q, R q)} {b : β}
    (whole : Run (d.bind f) t b) :
    ∃ t₁ t₂ a, t = t₁ ++ t₂ ∧ Run d t₁ a ∧ Run (f a) t₂ b := by
  induction d generalizing t with
  | done a => exact ⟨[], t, a, rfl, .done a, whole⟩
  | ask q next ih =>
    rw [Dialogue.bind.eq_def] at whole
    cases whole with
    | ask r rest =>
      obtain ⟨t₁, t₂, a, ht, h₁, h₂⟩ := ih r rest
      refine ⟨⟨q, r⟩ :: t₁, t₂, a, ?_, .ask r h₁, h₂⟩
      rw [ht, List.cons_append]

end Dialogue
end HostPlan
