import HostPlan.Proofs.Declaration.Kept
import Mathlib.Data.List.Forall2
/-!
What an assembly does with its chains. Every chain has one role, told by its factory method; its
record goes into the collection of that role, or its fault among the problems, in the order of the
chains. Only the databases are gone through once more: the servers of other databases leave, and
those others come behind the rest.
-/
namespace HostPlan.Declaration

open Source

inductive Role where
  | database
  /-- A container that counts as a database. -/
  | cache
  | storage
  | service
  | application
  | none
deriving DecidableEq, Repr

/-- Databases go before containers, and these before applications. -/
def role (c : Chain) : Role :=
  if (engine? c.rootMethod).isSome then .database
  else
    match serviceKind? c.rootMethod with
    | some kind =>
      if kind = "redis" ∨ kind = "mongodb" then .cache
      else if kind = "minio" then .storage
      else .service
    | none => if (applicationKind? c.rootMethod).isSome then .application else .none

def databaseOf? (c : Chain) : Option Database :=
  match role c with
  | .database => (database c).toOption
  | .cache => (service c).toOption.map asDatabase
  | _ => none

def storageOf? (c : Chain) : Option Storage :=
  match role c with
  | .storage => (service c).toOption.map asStorage
  | _ => none

def serviceOf? (c : Chain) : Option Service :=
  match role c with
  | .service => (service c).toOption
  | _ => none

def applicationOf? (c : Chain) : Option Application :=
  match role c with
  | .application => (application c).toOption
  | _ => none

def faultIn? {α : Type} : Reading α → Option OversizedNumeral
  | .ok _ => none
  | .error e => some e

/-- Why the chain cannot be read. -/
def faultOf? (c : Chain) : Option OversizedNumeral :=
  match role c with
  | .database => faultIn? (database c)
  | .cache | .storage | .service => faultIn? (service c)
  | .application => faultIn? (application c)
  | .none => none

section Keeping

variable {ρ α : Type} {P : ρ → Prop}

/-- No call that follows the rule breaks the property. -/
def Rule.Keeps (P : ρ → Prop) (rule : Rule ρ) : Prop :=
  ∀ change, rule = .update change → ∀ c f, change c = .ok f → ∀ r, P r → P (f r)

theorem Rule.keeps_overwrite {read : MethodCall → Option α} {write : α → ρ → ρ}
    (keep : ∀ v r, P r → P (write v r)) : (Rule.overwrite read write).Keeps P := by
  intro change h c f hf r hr
  cases h
  cases hf
  cases read c with
  | none => exact hr
  | some v => exact keep v r hr

theorem Rule.keeps_reset {read : MethodCall → Reading (Option α)} {write : Option α → ρ → ρ}
    (keep : ∀ v r, P r → P (write v r)) : (Rule.reset read write).Keeps P := by
  intro change h c f hf r hr
  cases h
  obtain ⟨v, _, rfl⟩ := Reading.map_eq_ok_iff.1 hf
  exact keep v r hr

theorem Rule.keeps_accumulate {read : MethodCall → Reading (Option α)} {add : α → ρ → ρ}
    (keep : ∀ v r, P r → P (add v r)) : (Rule.accumulate read add).Keeps P := by
  intro change h c f hf r hr
  cases h
  obtain ⟨v, _, rfl⟩ := Reading.map_eq_ok_iff.1 hf
  cases v with
  | none => exact hr
  | some v => exact keep v r hr

theorem Rule.keeps_always {change : ρ → ρ} (keep : ∀ r, P r → P (change r)) :
    (Rule.always change).Keeps P := by
  intro change' h c f hf r hr
  cases h
  cases hf
  exact keep r hr

theorem Rules.keep_of_keeps {rules : Rules ρ}
    (each : ∀ method rule, rules method = some rule → rule.Keeps P) : rules.Keep P :=
  fun method _ found => each method _ found _ rfl

end Keeping

theorem serviceRules_keep (k : String) : serviceRules.Keep fun s => s.kind = k := by
  apply Rules.keep_of_keeps
  intro method rule found
  unfold serviceRules at found
  split at found <;> cases found
  · exact Rule.keeps_overwrite fun _ _ h => h
  · exact Rule.keeps_overwrite fun _ _ h => h
  · exact Rule.keeps_reset fun _ _ h => h
  · exact Rule.keeps_accumulate fun _ _ h => h
  · exact Rule.keeps_accumulate fun _ _ h => h
  · exact Rule.keeps_accumulate fun _ _ h => h
  · exact Rule.keeps_accumulate fun _ _ h => h
  · exact Rule.keeps_accumulate fun _ _ h => h
  · exact Rule.keeps_always fun _ h => h
  · exact Rule.keeps_accumulate fun _ _ h => h

/-- No call changes the kind of a container. -/
theorem kind_service {c : Chain} {s : Service} (h : service c = .ok s) :
    s.kind = (serviceKind? c.rootMethod).getD "custom" :=
  keep_applyCalls (serviceRules_keep _) 0 c.calls h rfl

theorem Reading.map_congr {α β : Type} {x : Reading α} {f g : α → β}
    (h : ∀ a, x = .ok a → f a = g a) : f <$> x = g <$> x := by
  cases x with
  | error e => rfl
  | ok a => exact congrArg Except.ok (h a rfl)

/-- What a chain declares, by its role. -/
theorem resource?_eq (c : Chain) :
    resource? c = match role c with
      | .database => (fun d => some (.database d)) <$> database c
      | .cache => (fun s => some (.database (asDatabase s))) <$> service c
      | .storage => (fun s => some (.storage (asStorage s))) <$> service c
      | .service => (fun s => some (.service s)) <$> service c
      | .application => (fun a => some (.application a)) <$> application c
      | .none => .ok none := by
  unfold resource? role
  by_cases engine : (engine? c.rootMethod).isSome = true
  · simp only [if_pos engine]
    rfl
  · simp only [if_neg engine]
    cases known : serviceKind? c.rootMethod with
    | none =>
      simp only [Option.isSome_none, Bool.false_eq_true, if_false]
      by_cases app : (applicationKind? c.rootMethod).isSome = true
      · simp only [if_pos app]
        rfl
      · simp only [if_neg app]
    | some kind =>
      simp only [Option.isSome_some, if_true]
      -- The record is placed by its kind, which no call changes.
      have kept : ∀ s, service c = .ok s → s.kind = kind := by
        intro s hs
        rw [kind_service hs, known, Option.getD_some]
      by_cases cache : kind = "redis" ∨ kind = "mongodb"
      · simp only [if_pos cache]
        apply Reading.map_congr
        intro s hs
        rw [Function.comp_apply, place, kept s hs, if_pos cache]
      · simp only [if_neg cache]
        by_cases store : kind = "minio"
        · simp only [if_pos store]
          apply Reading.map_congr
          intro s hs
          rw [Function.comp_apply, place, kept s hs, if_neg cache, if_pos store]
        · simp only [if_neg store]
          apply Reading.map_congr
          intro s hs
          rw [Function.comp_apply, place, kept s hs, if_neg cache, if_neg store]

def declared? (c : Chain) : Option Resource :=
  match resource? c with
  | .ok r => r
  | .error _ => none

/-- The problem of a chain that cannot be read, with the beginning of its text. -/
def problemOf? (c : Chain) : Option Problem :=
  (faultOf? c).map fun e => .failed e (String.ofList (c.raw.toList.take 100))

/-- How often a chain shows in a model and among its problems. -/
def marks (c : Chain) : Nat :=
  (databaseOf? c).toList.length + (storageOf? c).toList.length + (serviceOf? c).toList.length +
    (applicationOf? c).toList.length + (problemOf? c).toList.length

/-- A chain with a role leaves its record or its problem, and one of the two only. -/
theorem marks_eq (c : Chain) : marks c = if role c = .none then 0 else 1 := by
  unfold marks databaseOf? storageOf? serviceOf? applicationOf? problemOf? faultOf?
  cases role c with
  | database => cases database c <;> rfl
  | cache => cases service c <;> rfl
  | storage => cases service c <;> rfl
  | service => cases service c <;> rfl
  | application => cases application c <;> rfl
  | none => rfl

theorem shares (c : Chain) :
    (declared? c).bind (fun | .database d => some d | _ => none) = databaseOf? c ∧
    (declared? c).bind (fun | .storage s => some s | _ => none) = storageOf? c ∧
    (declared? c).bind (fun | .service s => some s | _ => none) = serviceOf? c ∧
    (declared? c).bind (fun | .application a => some a | _ => none) = applicationOf? c ∧
    problem? c = problemOf? c := by
  rw [declared?, problem?, resource?_eq, databaseOf?, storageOf?, serviceOf?, applicationOf?,
    problemOf?, faultOf?]
  cases role c with
  | database => cases database c <;> exact ⟨rfl, rfl, rfl, rfl, rfl⟩
  | cache => cases service c <;> exact ⟨rfl, rfl, rfl, rfl, rfl⟩
  | storage => cases service c <;> exact ⟨rfl, rfl, rfl, rfl, rfl⟩
  | service => cases service c <;> exact ⟨rfl, rfl, rfl, rfl, rfl⟩
  | application => cases application c <;> exact ⟨rfl, rfl, rfl, rfl, rfl⟩
  | none => exact ⟨rfl, rfl, rfl, rfl, rfl⟩

/-- Each collection gathers what the chains hand to it. -/
theorem collect_resources (chains : List Chain) :
    collect (resources chains) = {
      databases := chains.filterMap databaseOf?
      storage := chains.filterMap storageOf?
      services := chains.filterMap serviceOf?
      applications := chains.filterMap applicationOf? } := by
  have gathered : ∀ {α : Type} {pick : Resource → Option α} {of? : Chain → Option α},
      (∀ c, (declared? c).bind pick = of? c) →
        (resources chains).filterMap pick = chains.filterMap of? := by
    intro α pick of? h
    rw [resources, List.filterMap_filterMap]
    exact List.filterMap_congr fun c _ => h c
  unfold collect
  congr 1
  · exact gathered fun c => (shares c).1
  · exact gathered fun c => (shares c).2.1
  · exact gathered fun c => (shares c).2.2.1
  · exact gathered fun c => (shares c).2.2.2.1

theorem problems_eq (chains : List Chain) :
    chains.filterMap problem? = chains.filterMap problemOf? :=
  List.filterMap_congr fun c _ => (shares c).2.2.2.2

section Children

variable {chains : List Chain}

/-- The last chain that is bound to the variable. -/
def LastBound (chains : List Chain) (v : String) (p : Chain) : Prop :=
  ∃ before after, chains = before ++ p :: after ∧ p.boundTo = some v ∧
    ∀ c ∈ after, c.boundTo ≠ some v

/-- The chain that a chain is declared on. -/
def Parent (chains : List Chain) (c p : Chain) : Prop :=
  ∃ v, c.base? = some v ∧ v ≠ "" ∧ LastBound chains v p

theorem find?_reverse_eq_some_iff {v : String} {p : Chain} :
    (chains.reverse.find? fun c => c.boundTo == some v) = some p ↔ LastBound chains v p := by
  rw [List.find?_eq_some_iff_append]
  constructor
  · rintro ⟨hp, after, before, split, last⟩
    refine ⟨before.reverse, after.reverse, ?_, by simpa using hp, ?_⟩
    · have := congrArg List.reverse split
      simpa using this
    · intro c hc
      simpa using last c (List.mem_reverse.1 hc)
  · rintro ⟨before, after, rfl, hp, last⟩
    refine ⟨by simpa using hp, after.reverse, before.reverse, by simp, ?_⟩
    intro c hc
    simpa using last c (List.mem_reverse.1 hc)

theorem bound?_eq_some_iff {c p : Chain} :
    bound? chains c.base? = some p ↔ Parent chains c p := by
  unfold bound? Parent
  cases c.base? with
  | none => simp
  | some v =>
    by_cases empty : v = ""
    · simp [empty]
    · simp [empty, find?_reverse_eq_some_iff]

/-- What becomes of a chain that adds a database to a server. -/
structure IsChild (chains : List Chain) (c : Chain) (d : Database) : Prop where
  name : d.name = c.name
  boundTo : d.boundTo = c.boundTo
  serverVariable : d.serverVariable = c.base?
  environment : d.environment = []
  /-- A database chain hands its record down. -/
  inherits : ∀ p s, Parent chains c p → (engine? p.rootMethod).isSome → database p = .ok s →
    d.kind = s.kind ∧ d.image = s.image ∧ d.imageTag = s.imageTag ∧ d.hostPort = s.hostPort ∧
      d.hasDataVolume = s.hasDataVolume
  /-- Nothing comes from any other chain, or from none. -/
  plain : (∀ p, Parent chains c p → (engine? p.rootMethod).isNone) →
    d.kind = .engine .postgres ∧ d.image = none ∧ d.imageTag = none ∧ d.hostPort = none ∧
      d.hasDataVolume = false

theorem isChild_of_child {c : Chain} {d : Database} (h : child chains c = .ok d) :
    IsChild chains c d := by
  unfold child at h
  cases parent : bound? chains c.base? with
  | none =>
    rw [parent] at h
    cases h
    have orphan : ∀ p, ¬ Parent chains c p := by
      intro p hp
      rw [← bound?_eq_some_iff, parent] at hp
      cases hp
    exact {
      name := rfl, boundTo := rfl, serverVariable := rfl, environment := rfl
      inherits := fun p _ hp => absurd hp (orphan p)
      plain := fun _ => ⟨rfl, rfl, rfl, rfl, rfl⟩ }
  | some p =>
    have only : ∀ q, Parent chains c q → q = p := by
      intro q hq
      rw [← bound?_eq_some_iff, parent] at hq
      exact (Option.some.inj hq).symm
    rw [parent] at h
    cases engine : engine? p.rootMethod with
    | none =>
      simp only [engine] at h
      cases h
      refine {
        name := rfl, boundTo := rfl, serverVariable := rfl, environment := rfl
        inherits := ?_
        plain := fun _ => ⟨rfl, rfl, rfl, rfl, rfl⟩ }
      intro q s hq known
      rw [only q hq, engine] at known
      cases known
    | some e =>
      simp only [engine] at h
      obtain ⟨server, read, h⟩ := Reading.bind_eq_ok_iff.1 h
      cases h
      refine {
        name := rfl, boundTo := rfl, serverVariable := rfl, environment := rfl
        inherits := ?_
        plain := ?_ }
      · intro q s hq _ hs
        rw [only q hq, read] at hs
        cases hs
        exact ⟨rfl, rfl, rfl, rfl, rfl⟩
      · intro other
        have := other p (bound?_eq_some_iff.1 parent)
        rw [engine] at this
        cases this

/-- No chain fails that hands its record down. -/
def ReadableParents (chains : List Chain) : Prop :=
  ∀ c ∈ chains, c.rootMethod = childMethod → ∀ p, Parent chains c p →
    (engine? p.rootMethod).isSome → ∃ s, database p = .ok s

theorem exists_child (parents : ReadableParents chains) {c : Chain} (hc : c ∈ chains)
    (adds : c.rootMethod = childMethod) : ∃ d, child chains c = .ok d := by
  unfold child
  cases parent : bound? chains c.base? with
  | none => exact ⟨_, rfl⟩
  | some p =>
    cases engine : engine? p.rootMethod with
    | none =>
      simp only [engine]
      exact ⟨_, rfl⟩
    | some e =>
      obtain ⟨s, hs⟩ := parents c hc adds p (bound?_eq_some_iff.1 parent) (by simp [engine])
      simp only [engine, hs]
      exact ⟨_, rfl⟩

theorem Reading.exists_mapM {α β : Type} {f : α → Reading β} {l : List α}
    (h : ∀ a ∈ l, ∃ b, f a = .ok b) :
    ∃ l', l.mapM f = .ok l' ∧ List.Forall₂ (fun a b => f a = .ok b) l l' := by
  induction l with
  | nil => exact ⟨[], rfl, .nil⟩
  | cons a rest ih =>
    obtain ⟨b, hb⟩ := h a List.mem_cons_self
    obtain ⟨rest', hrest, each⟩ := ih fun a ha => h a (List.mem_cons_of_mem _ ha)
    refine ⟨b :: rest', ?_, .cons hb each⟩
    rw [List.mapM_cons, hb, hrest]
    rfl

def adding (chains : List Chain) : List Chain :=
  chains.filter fun c => c.rootMethod == childMethod

/-- A chain that adds a database to a server leaves nothing but its child. -/
theorem role_adding {c : Chain} (h : c ∈ adding chains) : role c = .none := by
  have adds : c.rootMethod = childMethod := beq_iff_eq.1 (List.mem_filter.1 h).2
  unfold role
  rw [adds]
  rfl

/-- Every chain that adds a database has its child, in the order of the chains. -/
theorem exists_children (parents : ReadableParents chains) :
    ∃ added, children chains = .ok added ∧ List.Forall₂ (IsChild chains) (adding chains) added := by
  have readable : ∀ c ∈ adding chains, ∃ d, child chains c = .ok d := by
    intro c hc
    obtain ⟨hc, adds⟩ := List.mem_filter.1 hc
    exact exists_child parents hc (beq_iff_eq.1 adds)
  obtain ⟨added, read, each⟩ := Reading.exists_mapM readable
  exact ⟨added, read, each.imp fun _ _ => isChild_of_child⟩

/-- Some chain adds a database to this one. -/
def Serves (chains : List Chain) (d : Database) : Prop :=
  d.boundTo ≠ none ∧ d.boundTo ≠ some "" ∧
    ∃ c ∈ chains, c.rootMethod = childMethod ∧ c.base? = d.boundTo

instance (chains : List Chain) (d : Database) : Decidable (Serves chains d) :=
  inferInstanceAs (Decidable (_ ∧ _ ∧ _))

theorem serverVariables_eq {cs : List Chain} {added : List Database}
    (each : List.Forall₂ (IsChild chains) cs added) :
    added.map Database.serverVariable = cs.map Chain.base? := by
  induction each with
  | nil => rfl
  | cons head _ ih => rw [List.map_cons, List.map_cons, head.serverVariable, ih]

theorem isServerOf_iff {added : List Database}
    (each : List.Forall₂ (IsChild chains) (adding chains) added) (d : Database) :
    isServerOf added d = true ↔ Serves chains d := by
  have named : ∀ v, (∃ a ∈ added, a.serverVariable = v) ↔
      ∃ c ∈ chains, c.rootMethod = childMethod ∧ c.base? = v := by
    intro v
    rw [← List.mem_map, serverVariables_eq each, List.mem_map]
    simp [adding, and_assoc]
  unfold isServerOf Serves
  rw [← named]
  cases d.boundTo <;> simp

end Children

/-- The model of some chains, once the databases that they add are read. -/
theorem assemble_of_children {chains : List Chain} {added : List Database}
    (read : children chains = .ok added)
    (each : List.Forall₂ (IsChild chains) (adding chains) added) :
    ∃ a, assemble chains = .ok a ∧
      a.model.databases =
        ((chains.filterMap databaseOf?).filter fun d => ¬ Serves chains d) ++ added ∧
      a.model.storage = chains.filterMap storageOf? ∧
      a.model.services = chains.filterMap serviceOf? ∧
      a.model.applications = chains.filterMap applicationOf? ∧
      a.problems = chains.filterMap problemOf? := by
  have remaining : ∀ ds, withoutServers ds added = ds.filter fun d => ¬ Serves chains d := by
    intro ds
    apply List.filter_congr
    intro d _
    simp [← isServerOf_iff each]
  refine ⟨_, by rw [assemble, read]; rfl, ?_, ?_, ?_, ?_, problems_eq chains⟩
  · rw [collect_resources, remaining]
  · rw [collect_resources]
  · rw [collect_resources]
  · rw [collect_resources]

/-- No resource is lost, doubled or moved on the way from the chains to a model, and every chain
that cannot be read is reported once. -/
theorem assembles_every_chain {chains : List Chain} (parents : ReadableParents chains) :
    (∃ a added, assemble chains = .ok a ∧
      a.model.databases =
        ((chains.filterMap databaseOf?).filter fun d => ¬ Serves chains d) ++ added ∧
      List.Forall₂ (IsChild chains) (adding chains) added ∧
      a.model.storage = chains.filterMap storageOf? ∧
      a.model.services = chains.filterMap serviceOf? ∧
      a.model.applications = chains.filterMap applicationOf? ∧
      a.problems = chains.filterMap problemOf?) ∧
    (∀ c ∈ chains, marks c = if role c = .none then 0 else 1) ∧
    ∀ c ∈ adding chains, role c = .none := by
  obtain ⟨added, read, each⟩ := exists_children parents
  obtain ⟨a, ok, databases, collections⟩ := assemble_of_children read each
  exact ⟨⟨a, added, ok, databases, each, collections⟩, fun c _ => marks_eq c, fun _ => role_adding⟩

def longPort (digits : Nat) : Chain := {
  rootMethod := "AddRedis"
  name := "sessions"
  boundTo := some "sessions"
  calls := [{ method := "WithHostPort", args := [String.ofList (List.replicate digits '1')] }] }

theorem database_longPort {n : Nat} (long : maxDigits < n) :
    database (longPort n) = .error ⟨n⟩ := by
  have refused : port (List.replicate n '1') = .error ⟨n⟩ := by
    rw [port_eq_error_iff]
    refine ⟨long, ?_⟩
    have digits : Text.trimStart (List.replicate n '1') = List.replicate n '1' := by
      rw [Text.trimStart, List.dropWhile_replicate]
      exact if_neg (by decide)
    rw [digits, List.takeWhile_replicate, if_pos (by decide), List.length_replicate]
  simp [database, longPort, applyCalls, applyCall, databaseRules, Rule.reset, MethodCall.firstPort,
    refused, Except.map, bind, Except.bind]

theorem role_longPort (n : Nat) : role (longPort n) = .database := rfl

theorem databaseOf?_longPort {n : Nat} (long : maxDigits < n) :
    databaseOf? (longPort n) = none := by
  rw [databaseOf?, role_longPort, database_longPort long]
  rfl

theorem problemOf?_longPort {n : Nat} (long : maxDigits < n) :
    problemOf? (longPort n) = some (.failed ⟨n⟩ "") := by
  rw [problemOf?, faultOf?, role_longPort, database_longPort long]
  rfl

def mainServer : Chain := {
  rootMethod := "AddPostgres"
  name := "server"
  boundTo := some "main"
  calls := [{ method := "WithImageTag", rawArgs := "\"16\"" }] }

def ordersOnMain : Chain :=
  { rootMethod := "AddDatabase", name := "orders", base? := some "main" }

/-- A broken chain, a database before its server, a cache under the name of the server, a store. -/
def entangled : List Chain := [
  longPort 4301,
  ordersOnMain,
  { rootMethod := "AddGarnet", name := "cache", boundTo := some "main" },
  mainServer,
  { rootMethod := "AddMinio", name := "files", boundTo := some "files" }]

theorem parent_ordersOnMain : Parent entangled ordersOnMain mainServer := by
  refine ⟨"main", rfl, by decide, entangled.take 3, entangled.drop 4, rfl, rfl, ?_⟩
  intro c hc same
  rw [List.mem_singleton.1 hc] at same
  exact absurd (Option.some.inj same) (by decide)

theorem database_mainServer :
    database mainServer = .ok { name := "server", boundTo := some "main", imageTag := some "16" } :=
  rfl

theorem adding_entangled : adding entangled = [ordersOnMain] := rfl

theorem entangled_accounts :
    ∃ a, assemble entangled = .ok a ∧
      a.model.databases.map (fun d => (d.name, d.imageTag)) = [("orders", some "16")] ∧
      a.model.storage.map Storage.name = ["files"] ∧
      a.problems = [.failed ⟨4301⟩ ""] := by
  have parents : ReadableParents entangled := by
    intro c hc adds p parent _
    have only : c ∈ adding entangled := List.mem_filter.2 ⟨hc, beq_iff_eq.2 adds⟩
    rw [adding_entangled, List.mem_singleton] at only
    subst only
    have same := bound?_eq_some_iff.2 parent_ordersOnMain
    rw [bound?_eq_some_iff.2 parent, Option.some.injEq] at same
    exact ⟨_, same ▸ database_mainServer⟩
  obtain ⟨⟨a, added, ok, databases, children, storage, -, -, problems⟩, -⟩ :=
    assembles_every_chain parents
  -- The chain with the long numeral is taken off by its lemma before the others are evaluated.
  have gone : (entangled.filterMap databaseOf?).filter (fun d => ¬ Serves entangled d) = [] := by
    rw [entangled, List.filterMap_cons_none (databaseOf?_longPort (by decide))]
    rfl
  rw [adding_entangled] at children
  obtain ⟨d, rest, child, last, rfl⟩ := List.forall₂_cons_left_iff.1 children
  cases last
  have tag := (child.inherits mainServer _ parent_ordersOnMain rfl database_mainServer).2.2.1
  refine ⟨a, ok, ?_, ?_, ?_⟩
  · rw [databases, gone, List.nil_append, List.map_singleton, child.name, tag]
    rfl
  · rw [storage]
    rfl
  · rw [problems]
    rw [entangled, List.filterMap_cons_some (problemOf?_longPort (by decide))]
    rfl

end HostPlan.Declaration
