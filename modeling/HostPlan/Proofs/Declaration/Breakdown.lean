import HostPlan.Proofs.Declaration.Accounts
/-!
When an assembly breaks down. A chain that cannot be read is reported and left out, and the others
are read; but the chain of a server is read once more for the databases that are added to it, and
there nothing catches what goes wrong. What goes wrong is one thing only, a port whose numeral is too
long, on the chain or in a lambda that one of its calls hands back to the table.
-/
namespace HostPlan.Declaration

open Source Text

section Reaching

variable {ρ : Type}

/-- The second call is followed where the first one is: they are the same, or it stands in a lambda
that the first one hands back to the table. -/
inductive Follows (rules : Rules ρ) : Nat → MethodCall → MethodCall → Prop where
  | here (levels : Nat) (c : MethodCall) : Follows rules levels c c
  | inside {levels : Nat} {c d e : MethodCall} (replays : rules c.method = some .replay)
      (hd : d ∈ (lambdaRun c.rawArgs.toList).calls) (rest : Follows rules levels d e) :
      Follows rules (levels + 1) c e

def Fails {α : Type} (x : Reading α) : Prop := ∃ e, x = .error e

theorem fails_ok {α : Type} (a : α) : ¬ Fails (Except.ok a : Reading α) := by
  rintro ⟨e, h⟩
  cases h

theorem fails_map {α β : Type} {x : Reading α} (f : α → β) : Fails (x.map f) ↔ Fails x := by
  cases x with
  | ok a => exact iff_of_false (fails_ok _) (fails_ok _)
  | error e => exact iff_of_true ⟨e, rfl⟩ ⟨e, rfl⟩

theorem fails_bind {α β : Type} {x : Reading α} {f : α → Reading β} :
    Fails (x >>= f) ↔ Fails x ∨ ∃ a, x = .ok a ∧ Fails (f a) := by
  cases x with
  | ok a => simp [Fails, bind, Except.bind]
  | error e => simp [Fails, bind, Except.bind]

theorem fails_bind_ok {α β : Type} (x : Reading α) (f : α → β) :
    Fails (x >>= fun a => pure (f a)) ↔ Fails x := by
  rw [fails_bind]
  exact or_iff_left fun ⟨a, _, fails⟩ => fails_ok (f a) fails

/-- When each step fails for its call alone, a row of them fails for one of its calls. -/
theorem fails_foldlM {step : ρ → MethodCall → Reading ρ} {bad : MethodCall → Prop}
    (each : ∀ r c, Fails (step r c) ↔ bad c) (calls : List MethodCall) (r : ρ) :
    Fails (calls.foldlM step r) ↔ ∃ c ∈ calls, bad c := by
  induction calls generalizing r with
  | nil => exact iff_of_false (fails_ok r) (by simp)
  | cons c rest ih =>
    rw [List.foldlM_cons, fails_bind, each, List.exists_mem_cons_iff]
    refine or_congr_right' fun good => ?_
    cases hstep : step r c with
    | error e => exact absurd ((each r c).1 ⟨e, hstep⟩) good
    | ok r' => simp [ih]

/-- The rule of a call's own method cannot read it. -/
def Refuses (rules : Rules ρ) (c : MethodCall) : Prop :=
  ∃ change, rules c.method = some (.update change) ∧ Fails (change c)

section Calls

variable {rules : Rules ρ} {levels : Nat} {c d : MethodCall}

/-- A call without a lambda to replay is followed alone. -/
theorem follows_flat (flat : levels = 0 ∨ rules c.method ≠ some .replay) :
    Follows rules levels c d ↔ d = c := by
  constructor
  · intro h
    cases h with
    | here => rfl
    | inside replays hd rest =>
      rcases flat with none | other
      · cases none
      · exact absurd replays other
  · rintro rfl
    exact .here levels d

theorem refuses_update {change : MethodCall → Reading (ρ → ρ)}
    (h : rules c.method = some (.update change)) : Refuses rules c ↔ Fails (change c) := by
  simp [Refuses, h]

theorem not_refuses (h : ∀ change, rules c.method ≠ some (.update change)) :
    ¬ Refuses rules c := by
  rintro ⟨change, known, -⟩
  exact h change known

/-- A call fails for one that is followed with it. -/
theorem fails_applyCall (rules : Rules ρ) (levels : Nat) (r : ρ) (c : MethodCall) :
    Fails (applyCall rules levels r c) ↔ ∃ d, Follows rules levels c d ∧ Refuses rules d := by
  induction levels generalizing r c with
  | zero =>
    simp only [follows_flat (.inl rfl), exists_eq_left]
    unfold applyCall
    split
    · rename_i none
      exact iff_of_false (fails_ok r) (not_refuses (by simp [none]))
    · rename_i change known
      rw [fails_map, refuses_update known]
    · rename_i known levels
      exact iff_of_false (fails_ok r) (not_refuses (by simp [known]))
    · rename_i impossible
      cases impossible
  | succ levels ih =>
    unfold applyCall
    split
    · rename_i none
      simp only [follows_flat (.inr (by simp [none] : rules c.method ≠ _)), exists_eq_left]
      exact iff_of_false (fails_ok r) (not_refuses (by simp [none]))
    · rename_i change known
      simp only [follows_flat (.inr (by simp [known] : rules c.method ≠ _)), exists_eq_left]
      rw [fails_map, refuses_update known]
    · rename_i impossible
      cases impossible
    · rename_i known same
      cases same
      rw [fails_foldlM ih]
      constructor
      · rintro ⟨d, hd, e, rest, refused⟩
        exact ⟨e, .inside known hd rest, refused⟩
      · rintro ⟨e, follows, refused⟩
        cases follows with
        | here => exact absurd refused (not_refuses (by simp [known]))
        | inside _ hd rest => exact ⟨_, hd, e, rest, refused⟩

end Calls

end Reaching

section Databases

theorem refuses_databaseRules (c : MethodCall) :
    Refuses databaseRules c ↔ c.method = "WithHostPort" ∧ Fails c.firstPort := by
  constructor
  · rintro ⟨change, known, fails⟩
    unfold databaseRules at known
    split at known
    all_goals cases known
    · exact absurd fails (fails_ok _)
    · exact absurd fails (fails_ok _)
    · rename_i port
      exact ⟨port, (fails_map _).1 fails⟩
    · exact absurd fails (fails_ok _)
    · exact absurd ((fails_map _).1 fails) (fails_ok _)
  · rintro ⟨port, fails⟩
    exact ⟨_, by rw [port]; rfl, (fails_map _).2 fails⟩

/-- The numeral that the call begins with is too long to be read. -/
def Oversizes (c : MethodCall) : Prop :=
  ∃ a rest, c.args = a :: rest ∧ maxDigits < ((trimStart a.toList).takeWhile isDecimalDigit).length

theorem fails_firstPort (c : MethodCall) : Fails c.firstPort ↔ Oversizes c := by
  unfold MethodCall.firstPort Oversizes
  cases c.args with
  | nil => exact iff_of_false (fails_ok _) (by simp)
  | cons a rest =>
    simp only [Fails, port_eq_error_iff, List.cons.injEq]
    constructor
    · rintro ⟨e, long, digits⟩
      exact ⟨a, rest, ⟨rfl, rfl⟩, digits ▸ long⟩
    · rintro ⟨a', rest', ⟨rfl, rfl⟩, long⟩
      exact ⟨⟨_⟩, long, rfl⟩

/-- Some call sets the port of the database to a numeral that is too long, down to the last level of
lambdas that is read. -/
def Oversized (c : Chain) : Prop :=
  ∃ call ∈ c.calls, ∃ d, Follows databaseRules maxLambdaDepth call d ∧ d.method = "WithHostPort" ∧
    Oversizes d

theorem fails_database (c : Chain) : Fails (database c) ↔ Oversized c := by
  rw [database, applyCalls, fails_foldlM (fails_applyCall _ _), Oversized]
  simp only [refuses_databaseRules, fails_firstPort, Nat.sub_zero]

end Databases

section Assemblies

variable {chains : List Chain}

theorem fails_child (c : Chain) :
    Fails (child chains c) ↔
      ∃ p, Parent chains c p ∧ (engine? p.rootMethod).isSome = true ∧ Oversized p := by
  simp only [← bound?_eq_some_iff]
  unfold child
  cases bound? chains c.base? with
  | none => exact iff_of_false (fails_ok _) (by simp)
  | some p =>
    simp only [Option.some.injEq, exists_eq_left', ← fails_database]
    cases engine? p.rootMethod with
    | none => exact iff_of_false (fails_ok _) (by simp)
    | some e =>
      simp only [Option.isSome_some, true_and, fails_bind_ok]

theorem fails_mapM {α β : Type} (f : α → Reading β) (l : List α) :
    Fails (l.mapM f) ↔ ∃ a ∈ l, Fails (f a) := by
  induction l with
  | nil => exact iff_of_false (fails_ok _) (by simp)
  | cons a rest ih =>
    rw [List.mapM_cons, fails_bind, List.exists_mem_cons_iff]
    refine or_congr_right' fun good => ?_
    cases head : f a with
    | error e => exact absurd ⟨e, head⟩ good
    | ok b =>
      simp only [Except.ok.injEq, exists_eq_left', fails_bind_ok, ih]

/-- Some chain adds a database to a server whose port is a numeral that is too long. -/
def ServerOversized (chains : List Chain) : Prop :=
  ∃ c ∈ chains, c.rootMethod = childMethod ∧
    ∃ p, Parent chains c p ∧ (engine? p.rootMethod).isSome = true ∧ Oversized p

theorem fails_assemble (chains : List Chain) :
    Fails (assemble chains) ↔ ServerOversized chains := by
  simp only [assemble, fails_bind_ok, children, fails_mapM, fails_child, ServerOversized,
    List.mem_filter, beq_iff_eq, and_assoc]

/-- Every chain is accounted for: its record stands in the collection of its role, or its problem
among the others, with the beginning of its text. -/
structure Accounted (chains : List Chain) (broken : List String) (a : Assembly) : Prop where
  databases : ∃ added, List.Forall₂ (IsChild chains) (adding chains) added ∧
    a.model.databases = ((chains.filterMap databaseOf?).filter fun d => ¬ Serves chains d) ++ added
  storage : a.model.storage = chains.filterMap storageOf?
  services : a.model.services = chains.filterMap serviceOf?
  applications : a.model.applications = chains.filterMap applicationOf?
  problems : a.problems = chains.filterMap problemOf? ++ broken.map .unclosed

theorem accounted_of_readable (parents : ReadableParents chains) :
    ∃ a, assemble chains = .ok a ∧ Accounted chains [] a := by
  obtain ⟨added, read, each⟩ := exists_children parents
  obtain ⟨a, ok, databases, storage, services, applications, problems⟩ :=
    assemble_of_children read each
  exact ⟨a, ok, ⟨added, each, databases⟩, storage, services, applications, by simpa using problems⟩

theorem readable_of_not_oversized (h : ¬ ServerOversized chains) : ReadableParents chains := by
  intro c hc adds p parent engine
  cases read : database p with
  | ok s => exact ⟨s, rfl⟩
  | error e => exact absurd ⟨c, hc, adds, p, parent, engine, (fails_database p).1 ⟨e, read⟩⟩ h

/-- An assembly breaks down where a database is added to a server whose port is a numeral that is too
long, and there only; everywhere else it accounts for every chain. So does the reading of a program,
which adds a problem for each broken chain. -/
theorem breaks_down_iff (chains : List Chain) (source : List Char) :
    (Fails (assemble chains) ↔ ServerOversized chains) ∧
    (¬ ServerOversized chains → ∃ a, assemble chains = .ok a ∧ Accounted chains [] a) ∧
    (Fails (readProgram source) ↔ ServerOversized (Source.chains source)) ∧
    (¬ ServerOversized (Source.chains source) → ∃ a, readProgram source = .ok a ∧
      Accounted (Source.chains source) (brokenChains source) a) := by
  refine ⟨fails_assemble chains, fun fine => accounted_of_readable (readable_of_not_oversized fine),
    ?_, fun fine => ?_⟩
  · rw [← fails_assemble, readProgram, fails_bind_ok]
  · obtain ⟨a, ok, accounted⟩ := accounted_of_readable (readable_of_not_oversized fine)
    refine ⟨{ a with problems := a.problems ++ (brokenChains source).map .unclosed }, ?_,
      accounted.databases, accounted.storage, accounted.services, accounted.applications, ?_⟩
    · rw [readProgram, ok]
      rfl
    · rw [accounted.problems]
      simp

end Assemblies

def ordersOnSessions : Chain :=
  { rootMethod := "AddDatabase", name := "orders", base? := some "sessions" }

/-- `sessions` has a port of 4301 digits, and `orders` is added to it. -/
theorem oversized_server_stops_assembly :
    assemble [longPort 4301, ordersOnSessions] = .error ⟨4301⟩ := by
  have long : database (longPort 4301) = .error ⟨4301⟩ := database_longPort (by decide)
  have orders : child [longPort 4301, ordersOnSessions] ordersOnSessions = .error ⟨4301⟩ := by
    have parent : bound? [longPort 4301, ordersOnSessions] ordersOnSessions.base? =
        some (longPort 4301) := rfl
    have engine : engine? (longPort 4301).rootMethod = some .redis := rfl
    simp only [child, parent, engine, long]
    rfl
  have adding : [longPort 4301, ordersOnSessions].filter (fun c => c.rootMethod == childMethod) =
      [ordersOnSessions] := rfl
  rw [assemble, children, adding, List.mapM_cons, orders]
  rfl

end HostPlan.Declaration
