import HostPlan.Declaration.Assembly
import HostPlan.Plan.Environment
import HostPlan.Proofs.Plan.Mention
/-!
Which connections an application is told about. Every resource that one of its targets means has a
variable for its connection, but databases of one kind share a variable, and so do all resources that
are no databases; the last one has it. A port that goes by the same variable takes it from all of
them.
-/
namespace HostPlan

section Last

variable {α β κ : Type} {key : β → κ}

/-- The last one in the list that has its key. -/
def LastOf (key : β → κ) (l : List β) (x : β) : Prop :=
  ∃ before after, l = before ++ x :: after ∧ ∀ y ∈ after, key y ≠ key x

theorem LastOf.mem {l : List β} {x : β} (h : LastOf key l x) : x ∈ l := by
  obtain ⟨before, after, rfl, -⟩ := h
  exact List.mem_append_right before List.mem_cons_self

theorem lastOf_cons {l : List β} {x y : β} :
    LastOf key (y :: l) x ↔ LastOf key l x ∨ (y = x ∧ ∀ z ∈ l, key z ≠ key x) := by
  constructor
  · rintro ⟨before, after, split, later⟩
    cases before with
    | nil =>
      obtain ⟨rfl, rfl⟩ := List.cons.inj split
      exact .inr ⟨rfl, later⟩
    | cons _ before =>
      obtain ⟨rfl, rfl⟩ := List.cons.inj split
      exact .inl ⟨before, after, rfl, later⟩
  · rintro (⟨before, after, rfl, later⟩ | ⟨rfl, later⟩)
    · exact ⟨y :: before, after, rfl, later⟩
    · exact ⟨[], l, rfl, later⟩

theorem not_lastOf_nil {x : β} : ¬ LastOf key [] x := fun h => nomatch h.mem

theorem lastOf_append {l m : List β} {x : β} :
    LastOf key (l ++ m) x ↔ LastOf key m x ∨ (LastOf key l x ∧ ∀ y ∈ m, key y ≠ key x) := by
  induction l with
  | nil => simp [not_lastOf_nil]
  | cons y l ih =>
    rw [List.cons_append, lastOf_cons, lastOf_cons, ih, List.forall_mem_append]
    tauto

theorem lastOf_map {f : α → β} {l : List α} {y : β} :
    LastOf key (l.map f) y ↔ ∃ x, f x = y ∧ LastOf (key ∘ f) l x := by
  induction l with
  | nil => simp [not_lastOf_nil]
  | cons a l ih =>
    rw [List.map_cons, lastOf_cons, ih]
    constructor
    · rintro (⟨x, rfl, last⟩ | ⟨rfl, later⟩)
      · exact ⟨x, rfl, lastOf_cons.2 (.inl last)⟩
      · exact ⟨a, rfl, lastOf_cons.2 (.inr ⟨rfl, by simpa using later⟩)⟩
    · rintro ⟨x, rfl, last⟩
      rcases lastOf_cons.1 last with last | ⟨rfl, later⟩
      · exact .inl ⟨x, rfl, last⟩
      · exact .inr ⟨rfl, by simpa using later⟩

theorem exists_lastOf (key : β → κ) {l : List β} {x : β} (h : x ∈ l) :
    ∃ y, LastOf key l y ∧ key y = key x := by
  induction l generalizing x with
  | nil => cases h
  | cons z l ih =>
    by_cases later : ∃ y ∈ l, key y = key x
    · obtain ⟨y, hy, same⟩ := later
      obtain ⟨w, last, again⟩ := ih hy
      exact ⟨w, lastOf_cons.2 (.inl last), again.trans same⟩
    · rcases List.mem_cons.1 h with rfl | hx
      · exact ⟨x, lastOf_cons.2 (.inr ⟨rfl, fun y hy same => later ⟨y, hy, same⟩⟩), rfl⟩
      · exact absurd ⟨x, hx, rfl⟩ later

theorem lastOf_iff_find? [DecidableEq κ] {l : List β} {x : β} :
    LastOf key l x ↔ l.reverse.find? (fun y => key y = key x) = some x := by
  simp only [List.find?_eq_some_iff_append, decide_true, true_and, LastOf, Bool.not_eq_true',
    decide_eq_false_iff_not]
  constructor
  · rintro ⟨before, after, rfl, later⟩
    exact ⟨after.reverse, before.reverse, by simp, by simpa using later⟩
  · rintro ⟨after, before, split, later⟩
    refine ⟨before.reverse, after.reverse, ?_, by simpa using later⟩
    rw [← List.reverse_reverse l, split]
    simp

end Last

namespace Entries

variable {κ α : Type} [DecidableEq κ] {es : Entries κ α} {pairs : List (κ × α)} {p q : κ × α}

theorem mem_iff_get? (distinct : (keys es).Nodup) : p ∈ es ↔ get? p.1 es = some p.2 := by
  induction es with
  | nil => simp
  | cons e es ih =>
    obtain ⟨new, rest⟩ := List.nodup_cons.1 distinct
    rw [List.mem_cons, ih rest, get?_cons]
    by_cases here : e.1 = p.1
    · have gone : get? p.1 es ≠ some p.2 := fun found =>
        new (here ▸ List.mem_map_of_mem ((ih rest).2 found))
      rw [if_pos here, Option.some.injEq, or_iff_left gone]
      exact ⟨fun same => by rw [same], fun same => (Prod.ext here same).symm⟩
    · rw [if_neg here]
      exact or_iff_right fun same => here (by rw [same])

theorem nodup_keys_put (k : κ) (v : α) (distinct : (keys es).Nodup) : (keys (put k v es)).Nodup := by
  rw [keys_put]
  split
  · exact distinct
  · rename_i new
    exact List.nodup_append.2 ⟨distinct, by simp, fun a ha b hb => by
      rw [List.mem_singleton.1 hb]
      exact fun same => new (same ▸ ha)⟩

theorem nodup_keys_ofList (pairs : List (κ × α)) : (keys (ofList pairs)).Nodup := by
  have upon (es : Entries κ α) (distinct : (keys es).Nodup) :
      (keys (pairs.foldl (fun es p => put p.1 p.2 es) es)).Nodup := by
    induction pairs generalizing es with
    | nil => exact distinct
    | cons p pairs ih => exact ih _ (nodup_keys_put p.1 p.2 distinct)
  exact upon [] List.nodup_nil

/-- Of several pairs with one key the last one is kept. -/
theorem mem_ofList : p ∈ ofList pairs ↔ LastOf Prod.fst pairs p := by
  rw [mem_iff_get? (nodup_keys_ofList pairs), get?_ofList, Option.map_eq_some_iff, lastOf_iff_find?]
  constructor
  · rintro ⟨q, found, value⟩
    have same : q.1 = p.1 := by simpa using List.find?_some found
    rwa [Prod.ext same value] at found
  · exact fun found => ⟨p, found, rfl⟩

theorem eq_of_mem_ofList (hp : p ∈ ofList pairs) (hq : q ∈ ofList pairs) (same : p.1 = q.1) :
    p = q := by
  rw [mem_iff_get? (nodup_keys_ofList pairs)] at hp hq
  rw [same, hq, Option.some.injEq] at hp
  exact Prod.ext same hp.symm

end Entries

section Connections

/-- The variable by which an application learns how to reach the resource. -/
def Resource.connectionKey : Resource → String
  | .database d => d.kind.connectionEnv
  | _ => defaultConnectionEnv

def Resource.connection (r : Resource) : String × String :=
  (r.connectionKey, interpolated (r.name ++ ".connectionString"))

/-- The resources that the targets of this owner mean. -/
def Model.connected (m : Model) (owner : String) : List Resource :=
  (m.owners.filter fun o => o.1 = owner).flatMap fun o => o.2.filterMap m.resolve?

/-- A port of the application goes by this variable. -/
def Application.HasPort (a : Application) (key : String) : Prop :=
  key ≠ "" ∧ ∃ e ∈ a.endpoints, e.envVariable = some key

variable {m : Model} {a : Application} {r : Resource} {p : String × String}

theorem connectionVariable_to (owner : String) (r : Resource) :
    Application.connectionVariable (Reference.to owner r) = r.connection := by
  cases r with
  | database d =>
    cases kind : d.kind with
    | engine e => cases e <;> simp [Application.connectionVariable, Reference.to, kind,
        Resource.connection, Resource.connectionKey, DatabaseKind.connectionEnv,
        Engine.connectionEnv]
    | other s h => simp [Application.connectionVariable, Reference.to, kind, Resource.connection,
        Resource.connectionKey, DatabaseKind.connectionEnv, defaultConnectionEnv]
  | storage s => rfl
  | service s => rfl
  | application a => rfl

theorem filter_linksOf (owner name : String) (targets : List String) :
    (m.linksOf owner targets).filter (fun r => r.source == name) =
      if owner = name then (targets.filterMap m.resolve?).map (Reference.to owner) else [] := by
  have links : m.linksOf owner targets =
      (targets.filterMap m.resolve?).map (Reference.to owner) := by
    rw [Model.linksOf, List.map_filterMap]
  rw [links, List.filter_map]
  by_cases same : owner = name
  · simp [same, Function.comp_def, Reference.to]
  · simp [same, Function.comp_def, Reference.to]

/-- The connections of an application in a model whose references come from its targets. -/
theorem connectionVariables_eq (h : m.references = m.links) :
    a.connectionVariables m = (m.connected a.name).map Resource.connection := by
  rw [Application.connectionVariables, h, Model.links, Model.connected]
  induction m.owners with
  | nil => rfl
  | cons o owners ih =>
    rw [List.flatMap_cons, List.filter_append, List.map_append, ih, filter_linksOf]
    by_cases same : o.1 = a.name
    · simp [same, connectionVariable_to]
    · simp [same]

theorem portVariable?_eq_some_iff {e : Endpoint} :
    Application.portVariable? e = some p ↔ e.envVariable = some p.1 ∧ p.1 ≠ "" ∧
      p.2 = String.ofList (Text.decimalInt ((usedPort? e.port).getD 3000)) := by
  unfold Application.portVariable?
  split
  · rename_i none
    simp [none]
  · rename_i empty
    rw [empty, Option.some.injEq]
    exact iff_of_false nofun fun ⟨same, named, _⟩ => named same.symm
  · rename_i key named given
    rw [given, Option.some.injEq, Option.some.injEq, Prod.ext_iff]
    constructor
    · rintro ⟨same, port⟩
      exact ⟨same, fun empty => named (same.trans empty), port.symm⟩
    · rintro ⟨same, -, port⟩
      exact ⟨same, port.symm⟩

theorem exists_portVariable_iff (key : String) :
    (∃ q ∈ a.endpoints.filterMap Application.portVariable?, q.1 = key) ↔ a.HasPort key := by
  simp only [List.mem_filterMap, Application.HasPort, portVariable?_eq_some_iff]
  constructor
  · rintro ⟨q, ⟨e, he, given, named, -⟩, rfl⟩
    exact ⟨named, e, he, given⟩
  · rintro ⟨named, e, he, given⟩
    exact ⟨(key, _), ⟨e, he, given, named, rfl⟩, rfl⟩

theorem connection_value_eq_iff {x : Resource} :
    x.connection.2 = r.connection.2 ↔ x.name = r.name := by
  simp [Resource.connection, interpolated]

/-- A port is a number, and no number names a connection. -/
theorem port_ne_connection (h : p ∈ a.endpoints.filterMap Application.portVariable?)
    (r : Resource) : p.2 ≠ r.connection.2 := by
  obtain ⟨e, -, port⟩ := List.mem_filterMap.1 h
  rw [(portVariable?_eq_some_iff.1 port).2.2]
  intro same
  have dollar : '$' ∈ r.connection.2.toList := by simp [Resource.connection, interpolated]
  rw [← same, String.toList_ofList] at dollar
  exact Json.dollar_not_mem_decimalInt _ dollar

/-- A variable of the application is the last port that goes by its name, or else the last connection,
or else the last one of its own. -/
theorem mem_runtime_iff (h : m.references = m.links) :
    p ∈ a.runtime m ↔ LastOf Prod.fst (a.endpoints.filterMap Application.portVariable?) p ∨
      (¬ a.HasPort p.1 ∧
        ((∃ r, r.connection = p ∧ LastOf Resource.connectionKey (m.connected a.name) r) ∨
          (LastOf Prod.fst a.ownVariables p ∧
            ∀ r ∈ m.connected a.name, r.connectionKey ≠ p.1))) := by
  have free : (∀ q ∈ a.endpoints.filterMap Application.portVariable?, q.1 ≠ p.1) ↔
      ¬ a.HasPort p.1 := by
    rw [← exists_portVariable_iff]
    push Not
    rfl
  have unconnected : (∀ q ∈ (m.connected a.name).map Resource.connection, q.1 ≠ p.1) ↔
      ∀ r ∈ m.connected a.name, r.connectionKey ≠ p.1 := by
    simp [Resource.connection]
  rw [Application.runtime, Entries.mem_ofList, lastOf_append, lastOf_append,
    connectionVariables_eq h, lastOf_map, free, unconnected, and_comm]
  rfl

/-- The application is told how to reach the resource: the last connection of some variable is that of
the resource's name, or a variable of its own spells it, and nothing takes the variable. -/
def Application.Told (a : Application) (m : Model) (r : Resource) : Prop :=
  (∃ x, LastOf Resource.connectionKey (m.connected a.name) x ∧ x.name = r.name ∧
    ¬ a.HasPort x.connectionKey) ∨
  ∃ p, LastOf Prod.fst a.ownVariables p ∧ p.2 = r.connection.2 ∧ ¬ a.HasPort p.1 ∧
    ∀ x ∈ m.connected a.name, x.connectionKey ≠ p.1

theorem exists_value_iff_told (h : m.references = m.links) (r : Resource) :
    (∃ p ∈ a.runtime m, p.2 = r.connection.2) ↔ a.Told m r := by
  constructor
  · rintro ⟨p, hp, value⟩
    rcases (mem_runtime_iff h).1 hp with port | ⟨free, ⟨x, rfl, last⟩ | ⟨own, unconnected⟩⟩
    · exact absurd value (port_ne_connection port.mem r)
    · exact .inl ⟨x, last, connection_value_eq_iff.1 value, free⟩
    · exact .inr ⟨p, own, value, free, unconnected⟩
  · rintro (⟨x, last, name, free⟩ | ⟨p, own, value, free, unconnected⟩)
    · exact ⟨x.connection, (mem_runtime_iff h).2 (.inr ⟨free, .inl ⟨x, rfl, last⟩⟩),
        connection_value_eq_iff.2 name⟩
    · exact ⟨p, (mem_runtime_iff h).2 (.inr ⟨free, .inr ⟨own, unconnected⟩⟩), value⟩

/-- No connection takes the variable of another one, and no port does. -/
structure Application.Unmixed (a : Application) (m : Model) : Prop where
  connections : ∀ x ∈ m.connected a.name, ∀ y ∈ m.connected a.name,
    x.connectionKey = y.connectionKey → x.name = y.name
  ports : ∀ x ∈ m.connected a.name, ¬ a.HasPort x.connectionKey

theorem all_connections_iff_unmixed (h : m.references = m.links) :
    (∀ r ∈ m.connected a.name, r.connection ∈ a.runtime m) ↔ a.Unmixed m := by
  constructor
  · intro all
    refine ⟨fun x hx y hy same => ?_, fun x hx port => ?_⟩
    · have pair := Entries.eq_of_mem_ofList (all x hx) (all y hy) same
      exact connection_value_eq_iff.1 (congrArg Prod.snd pair)
    · rcases (mem_runtime_iff h).1 (all x hx) with taken | ⟨free, -⟩
      · exact port_ne_connection taken.mem x rfl
      · exact free port
  · rintro ⟨connections, ports⟩ r hr
    obtain ⟨x, last, same⟩ := exists_lastOf Resource.connectionKey hr
    have pair : x.connection = r.connection :=
      Prod.ext same (connection_value_eq_iff.2 (connections x last.mem r hr same))
    exact (mem_runtime_iff h).2 (.inr ⟨ports r hr, .inl ⟨x, pair, last⟩⟩)

theorem mem_connected (ha : a ∈ m.applications) {t : String} (ht : t ∈ a.references)
    (resolved : m.resolve? t = some r) : r ∈ m.connected a.name := by
  have owner : (a.name, a.references) ∈ m.owners :=
    List.mem_append_left _ (List.mem_map_of_mem ha)
  exact List.mem_flatMap.2 ⟨_, List.mem_filter.2 ⟨owner, by simp⟩,
    List.mem_filterMap.2 ⟨t, ht, resolved⟩⟩

end Connections

namespace Declaration

theorem references_eq_links {source : List Char} {b : Assembly} (read : readProgram source = .ok b) :
    b.model.references = b.model.links := by
  unfold readProgram assemble at read
  cases added : children (Source.chains source) with
  | error e =>
    rw [added] at read
    cases read
  | ok ds =>
    rw [added] at read
    cases read
    rfl

/-- An application of a program is told how to reach what one of its targets means if that is the last
of its connections by some variable that no port goes by, or if a variable of its own spells it; and
it is told of all its connections, each under its own variable, if no two of them and no port share
one, and only then. -/
theorem connection_told_iff {source : List Char} {b : Assembly} (read : readProgram source = .ok b)
    {a : Application} (ha : a ∈ b.model.applications) :
    (∀ t ∈ a.references, ∀ r, b.model.resolve? t = some r →
      r ∈ b.model.connected a.name ∧
      ((∃ p ∈ a.runtime b.model, p.2 = interpolated (r.name ++ ".connectionString")) ↔
        a.Told b.model r)) ∧
    ((∀ r ∈ b.model.connected a.name, r.connection ∈ a.runtime b.model) ↔ a.Unmixed b.model) := by
  have links := references_eq_links read
  exact ⟨fun t ht r resolved => ⟨mem_connected ha ht resolved, exists_value_iff_told links r⟩,
    all_connections_iff_unmixed links⟩

def shopProgram : String :=
  "builder.AddKafka(\"queue\"); builder.AddSeq(\"logs\");
builder.AddProject(\"shop\").WithReference(queue).WithReference(logs);"

def queue : Service := { name := "queue", kind := "kafka" }

def logs : Service := { name := "logs", kind := "seq" }

def shop : Application := { name := "shop", references := ["queue", "logs"] }

def shopModel : Model where
  services := [queue, logs]
  applications := [shop]
  references := [{ source := "shop", target := "queue" }, { source := "shop", target := "logs" }]

theorem read_shopProgram : ∃ b, readProgram shopProgram.toList = .ok b ∧ b.model = shopModel := by
  have model : (readProgram shopProgram.toList).toOption.map Assembly.model = some shopModel := by
    decide +kernel
  cases read : readProgram shopProgram.toList with
  | error e =>
    rw [read] at model
    cases model
  | ok b =>
    rw [read] at model
    exact ⟨b, rfl, Option.some.inj model⟩

theorem resolve_logs : shopModel.resolve? "logs" = some (.service logs) := by
  simp [shopModel, Model.resolve?, Model.backing, Resource.answersTo, Resource.boundTo,
    Resource.name, queue, logs]

theorem connected_shop : shopModel.connected "shop" = [.service queue, .service logs] := by
  simp [shopModel, Model.connected, Model.owners, Model.resolve?, Model.backing, Resource.answersTo,
    Resource.boundTo, Resource.name, shop, queue, logs]

/-- The shop is told of its logs, but not of both its connections. -/
theorem logs_told_and_shop_mixed :
    ∃ b, readProgram shopProgram.toList = .ok b ∧ shop ∈ b.model.applications ∧
      (∃ p ∈ shop.runtime b.model, p.2 = interpolated ("logs" ++ ".connectionString")) ∧
      ¬ ∀ r ∈ b.model.connected "shop", r.connection ∈ shop.runtime b.model := by
  obtain ⟨b, read, model⟩ := read_shopProgram
  have mem : shop ∈ b.model.applications := by simp [model, shopModel]
  obtain ⟨told, all⟩ := connection_told_iff read mem
  refine ⟨b, read, mem, ?_, fun every => ?_⟩
  · have resolved : b.model.resolve? "logs" = some (.service logs) := model ▸ resolve_logs
    have last : LastOf Resource.connectionKey (b.model.connected "shop") (.service logs) := by
      rw [model]
      exact ⟨[.service queue], [], connected_shop, by simp⟩
    have free : ¬ shop.HasPort (Resource.service logs).connectionKey := fun port => by
      simpa [shop] using port.2
    exact (told "logs" (by simp [shop]) (.service logs) resolved).2.2
      (.inl ⟨.service logs, last, rfl, free⟩)
  · have unmixed := (all.1 every).connections
    rw [model, show shop.name = "shop" from rfl, connected_shop] at unmixed
    have same := unmixed (.service queue) (by simp) (.service logs) (by simp) rfl
    simp [Resource.name, queue, logs] at same

/-- The logs take the variable of the queue. -/
theorem queue_connection_overwritten :
    ∃ b, readProgram shopProgram.toList = .ok b ∧ ∃ a ∈ b.model.applications, ∃ t ∈ a.references,
      ∃ r, b.model.resolve? t = some r ∧
        ¬ ∃ p ∈ a.runtime b.model, p.2 = interpolated (r.name ++ ".connectionString") := by
  obtain ⟨b, read, model⟩ := read_shopProgram
  have runtime : shop.runtime shopModel = [(Resource.service logs).connection] := by rfl
  refine ⟨b, read, shop, by simp [model, shopModel], "queue", by simp [shop], .service queue, ?_, ?_⟩
  · rw [model]
    simp [shopModel, Model.resolve?, Model.backing, Resource.answersTo, Resource.boundTo, Resource.name,
      queue]
  · rw [model, runtime]
    simp [Resource.connection, Resource.name, interpolated, queue, logs]

end Declaration

end HostPlan
