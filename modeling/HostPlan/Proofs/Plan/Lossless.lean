import HostPlan.Plan.Export
import HostPlan.Plan.Build
import HostPlan.Proofs.Data.RoundTrip
import HostPlan.Proofs.Model.Document
import HostPlan.Proofs.Plan.Connection
/-!
What the JSON text of a model and of a plan says of it: everything. Of a model no more is left out
than what is unset, and an empty variable of an edge, which no program has. Of a plan no field of a
payload is left out, since nothing that is sent is null.
-/
namespace HostPlan

open Value

/-- The entries of a record whose values can be read. -/
def entriesOf {α : Type} (read : Value → Option α) (v : Value) : Entries String α :=
  (v.record?.getD []).filterMap fun f => (read f.2).map fun a => (f.1, a)

namespace Operation

/-- What a document says of an operation, with the usual values for what it leaves out. -/
def ofValue (v : Value) : Operation where
  endpoint := v.getText "endpoint" ""
  payload := entriesOf scalar? (v.field "payload")
  displayName := v.getText "display_name" ""
  category := Category.ofName (v.getText "category" "")
  method := v.getText "method" "POST"
  note := v.getText? "annotation"
  environment := entriesOf text? (v.field "environment")

def listOf (v : Value) : List Operation := (v.getList "operations").map ofValue

end Operation

section Scalars

namespace Scalar

variable {v w : Scalar}

theorem ne_null_of_isFilled (h : v.isFilled = true) : v ≠ .null := by
  rintro rfl
  cases h

theorem orElse_ne_null (h : w ≠ .null) : v.orElse w ≠ .null := by
  unfold orElse
  split
  · exact ne_null_of_isFilled (by assumption)
  · exact h

theorem orDefault_ne_null (h : w ≠ .null) : v.orDefault w ≠ .null := by
  unfold orDefault
  split
  · exact h
  · rename_i given
    rintro rfl
    exact given rfl

end Scalar

end Scalars

section Payloads

/-- No key of the payload stands twice, and none of its values is null. -/
structure Payload.Plain (p : Payload) : Prop where
  distinct : (Entries.keys p).Nodup
  given : ∀ f ∈ p, f.2 ≠ .null

variable (t : Target) (instant : Scalar)

theorem Target.given_filled : ∀ f ∈ t.filled.payload, f.2 ≠ .null := by
  simp [Target.filled, Target.payload, Scalar.orElse_ne_null]

theorem Database.plain_payload (d : Database) : (d.payload t.filled instant).Plain := by
  have sent : instant.orDefault (.flag true) ≠ .null := Scalar.orDefault_ne_null nofun
  unfold Database.payload
  constructor
  · cases imageReference d.image d.imageTag <;> cases usedPort? d.hostPort <;>
      cases d.kind.isSubstituted <;> simp [Entries.keys, Target.payload]
  · simp only [List.forall_mem_append]
    refine ⟨⟨⟨t.given_filled, by simp [sent]⟩, ?_⟩, ?_⟩
    · cases imageReference d.image d.imageTag <;> cases d.kind.isSubstituted <;> simp
    · cases usedPort? d.hostPort <;> simp

theorem plain_servicePayload (kind name : String) :
    (servicePayload kind name t.filled instant).Plain := by
  have sent : instant.orDefault (.flag true) ≠ .null := Scalar.orDefault_ne_null nofun
  constructor
  · simp [servicePayload, Entries.keys, Target.payload]
  · exact List.forall_mem_append.2 ⟨t.given_filled, by simp [sent]⟩

namespace Application

variable (a : Application)

theorem given_repositoryFields {r : Repository} (located : r.location.isFilled = true)
    (buildPack : Scalar) : ∀ f ∈ a.repositoryFields r buildPack, f.2 ≠ .null := by
  have app : r.app.isFilled = true → r.app ≠ .null := Scalar.ne_null_of_isFilled
  have base : (a.directory r.basePath).isFilled = true → a.directory r.basePath ≠ .null :=
    Scalar.ne_null_of_isFilled
  have place : r.location ≠ .null := Scalar.ne_null_of_isFilled located
  unfold repositoryFields
  simp only [List.forall_mem_append]
  refine ⟨⟨⟨?_, ?_⟩, ?_⟩, ?_⟩
  · split
    · rename_i known
      simp [app known]
    · simp
  · simp [place, Scalar.orElse_ne_null]
  · simp [commonFields]
  · split
    · rename_i known
      simp [base known]
    · simp

theorem plain_payload (repository : Option Repository) (buildPack : Scalar) :
    (a.payload t.filled instant repository buildPack).Plain := by
  have sent : instant.orDefault (.flag false) ≠ .null := Scalar.orDefault_ne_null nofun
  unfold payload
  cases source : source? repository with
  | none =>
    constructor
    · simp [Entries.keys, Target.payload, imageFields, commonFields]
    · simp only [List.forall_mem_append]
      exact ⟨⟨t.given_filled, by simp [imageFields, commonFields]⟩, by simp [sent]⟩
  | some r =>
    have located : r.location.isFilled = true := by
      rw [source?, Option.filter_eq_some_iff] at source
      exact source.2
    constructor
    · cases app : r.app.isFilled <;> cases base : (a.directory r.basePath).isFilled <;>
        simp [Entries.keys, Target.payload, repositoryFields, commonFields, app, base]
    · simp only [List.forall_mem_append]
      exact ⟨⟨t.given_filled, a.given_repositoryFields located buildPack⟩, by simp [sent]⟩

end Application

end Payloads

section Operations

/-- An operation that its document tells in full. -/
structure Operation.Plain (o : Operation) : Prop where
  payload : o.payload.Plain
  environment : (Entries.keys o.environment).Nodup
  category : Category.ofName o.category.name = o.category

theorem Resource.plain_operation (m : Model) (o : Options) (r : Resource) :
    (r.operation m o).Plain := by
  cases r with
  | database d => exact ⟨d.plain_payload _ _, List.nodup_nil, rfl⟩
  | storage s => exact ⟨plain_servicePayload _ _ _ _, List.nodup_nil, rfl⟩
  | service s => exact ⟨plain_servicePayload _ _ _ _, List.nodup_nil, rfl⟩
  | application a => exact ⟨a.plain_payload _ _ _ _, Entries.nodup_keys_ofList _, rfl⟩

theorem Options.plain_projectOperation {o : Options} {p : Operation}
    (h : o.projectOperation? = some p) : p.Plain := by
  unfold Options.projectOperation? at h
  split at h
  · rename_i needed
    have named : o.projectName ≠ .null :=
      Scalar.ne_null_of_isFilled (Bool.and_eq_true_iff.1 needed).1
    cases h
    exact ⟨⟨by simp [Entries.keys], by simp [named]⟩, List.nodup_nil, rfl⟩
  · cases h

theorem Model.plain_operations (m : Model) (o : Options) : ∀ p ∈ m.operations o, p.Plain := by
  unfold Model.operations
  rw [List.forall_mem_append]
  constructor
  · intro p hp
    exact Options.plain_projectOperation (Option.mem_toList.1 hp)
  · exact List.forall_mem_map.2 fun r _ => r.plain_operation m o

end Operations

section Documents

/-- A record of simple values has nothing that pruning would take away. -/
theorem prune_flat {fields : List (String × Value)}
    (h : ∀ f ∈ fields, f.2.isNull = false ∧ f.2.prune = f.2) :
    (Value.record fields).prune = .record fields := by
  have kept : fields.filter (fun f => !f.2.isNull) = fields :=
    List.filter_eq_self.2 fun f hf => by rw [(h f hf).1]; rfl
  have same : fields.map (fun f => (f.1, f.2.prune)) = fields := by
    rw [List.map_congr_left fun f hf => by rw [(h f hf).2], List.map_id']
  rw [prune_record, pruneFields_eq, kept, same]

theorem entriesOf_map {α : Type} {read : Value → Option α} (write : α → Value)
    (back : ∀ a, read (write a) = some a) (es : Entries String α) :
    entriesOf read (.record (es.map fun f => (f.1, write f.2))) = es := by
  simp [entriesOf, record?, List.filterMap_map, back]

theorem Payload.prune_toValue {p : Payload} (h : p.Plain) :
    (Payload.toValue p).prune = Payload.toValue p := by
  refine prune_flat (List.forall_mem_map.2 fun f hf => ?_)
  have given := h.given f hf
  cases value : f.2 with
  | null => exact absurd value given
  | _ => exact ⟨rfl, rfl⟩

theorem Payload.wellFormed_toValue {p : Payload} (h : p.Plain) :
    (Payload.toValue p).WellFormed := by
  have scalar (s : Scalar) : (Value.ofScalar s).WellFormed := by cases s <;> simp [Value.ofScalar]
  have keys : Entries.keys (p.map fun f => (f.1, Value.ofScalar f.2)) = Entries.keys p := by
    simp [Entries.keys]
  rw [Payload.toValue, wellFormed_record, keys]
  exact ⟨h.distinct, List.forall_mem_map.2 fun f _ => scalar f.2⟩

namespace Operation

theorem prune_environmentValue (e : Entries String String) :
    (environmentValue e).prune = environmentValue e :=
  prune_flat (List.forall_mem_map.2 fun _ _ => ⟨rfl, rfl⟩)

theorem wellFormed_environmentValue {e : Entries String String} (h : (Entries.keys e).Nodup) :
    (environmentValue e).WellFormed := by
  have keys : Entries.keys (e.map fun f => (f.1, Value.text f.2)) = Entries.keys e := by
    simp [Entries.keys]
  rw [environmentValue, wellFormed_record, keys]
  exact ⟨h, List.forall_mem_map.2 fun f _ => .text f.2⟩

variable {o : Operation}

theorem wellFormed_toValue (h : o.Plain) : o.toValue.WellFormed := by
  simp [toValue, Entries.keys, Payload.wellFormed_toValue h.payload,
    wellFormed_environmentValue h.environment]

theorem ofValue_document (h : o.Plain) : ofValue o.document = o := by
  have whole := wellFormed_toValue h
  -- Nothing inside these two is null, so pruning leaves them to be read as they were put there.
  have payload : entriesOf scalar? (o.document.field "payload") = o.payload := by
    rw [document, field_prune whole]
    exact (congrArg _ (Payload.prune_toValue h.payload)).trans
      (entriesOf_map ofScalar scalar?_ofScalar o.payload)
  have environment : entriesOf text? (o.document.field "environment") = o.environment := by
    rw [document, field_prune whole]
    exact (congrArg _ (prune_environmentValue o.environment)).trans
      (entriesOf_map .text (fun _ => rfl) o.environment)
  rw [ofValue, payload, environment, document, getText_prune whole, getText_prune whole,
    getText_prune whole, getText_prune whole, getText?_prune whole]
  simp [toValue, getText, getText?, field, Entries.get?_cons, text?_ofOption, h.category]

def listDocument (os : List Operation) : Value :=
  .record [("operations", .list (os.map document))]

theorem wellFormed_listDocument {os : List Operation} (h : ∀ o ∈ os, o.Plain) :
    (listDocument os).WellFormed := by
  have each : ∀ o ∈ os, o.document.WellFormed := fun o ho =>
    wellFormed_prune (wellFormed_toValue (h o ho))
  simpa [listDocument, Entries.keys] using each

theorem listOf_listDocument {os : List Operation} (h : ∀ o ∈ os, o.Plain) :
    listOf (listDocument os) = os := by
  have each : os.map (ofValue ∘ document) = os.map id :=
    List.map_congr_left fun o ho => ofValue_document (h o ho)
  simpa [listOf, listDocument, getList, field, Entries.get?_cons, list?] using each

end Operation

end Documents

/-- An edge of a program that was read never has an empty variable. -/
theorem Declaration.connectionEnv_ne_empty {source : List Char} {b : Assembly}
    (read : readProgram source = .ok b) : ∀ r ∈ b.model.references, r.connectionEnv ≠ some "" := by
  intro r hr
  rw [references_eq_links read, Model.links] at hr
  obtain ⟨owner, -, hr⟩ := List.mem_flatMap.1 hr
  obtain ⟨t, -, link⟩ := List.mem_filterMap.1 hr
  obtain ⟨x, -, rfl⟩ := Option.map_eq_some_iff.1 link
  cases x with
  | database d =>
    cases kind : d.kind with
    | engine e =>
      cases e <;> simp [Reference.to, kind, DatabaseKind.connectionEnv, Engine.connectionEnv]
    | other s h => simp [Reference.to, kind, DatabaseKind.connectionEnv, defaultConnectionEnv]
  | _ => simp [Reference.to]

/-- From the JSON text of a model the model is read back, on one line or on many, if no edge has an
empty variable, as in every program that was read, and only then; and from the JSON text of a plan
all its operations are read back. -/
theorem export_lossless {loads : String → Option Value} {takes : Int → Prop}
    (undoes : Json.Undoes loads takes) :
    (∀ (m : Model) (compact : Bool), (∀ i ∈ m.toValue.numbers, takes i) →
      ((loads (m.exported compact .json)).map Model.ofValue = some m ↔
        ∀ r ∈ m.references, r.connectionEnv ≠ some "")) ∧
    (∀ (source : List Char) (b : Assembly), Declaration.readProgram source = .ok b →
      ∀ r ∈ b.model.references, r.connectionEnv ≠ some "") ∧
    ∀ (m : Model) (o : Options),
      (∀ i ∈ (Operation.listDocument (m.operations o)).numbers, takes i) →
      (loads (exportOperations (m.operations o) .json)).map Operation.listOf =
        some (m.operations o) := by
  refine ⟨fun m compact taken => ?_, fun _ _ => Declaration.connectionEnv_ne_empty,
    fun m o taken => ?_⟩
  · have layout : (if compact then Json.spaced else Json.indented) ∈
        [Json.spaced, Json.indented] := by
      cases compact <;> simp
    have back := undoes _ layout m.toValue m.wellFormed_toValue taken
    rw [← m.ofValue_toValue_iff, Model.exported, back, Option.map_some, Option.some.injEq]
  · have plain := m.plain_operations o
    have back := undoes Json.indented (by simp) _ (Operation.wellFormed_listDocument plain) taken
    rw [exportOperations]
    exact (congrArg _ back).trans (congrArg some (Operation.listOf_listDocument plain))

/-- A model whose unset fields lie beside empty ones, with a text that needs every kind of escape.
-/
def depot : Model where
  databases := [{
    name := "store"
    kind := .ofName "oracle"
    hostPort := some 0
    environment := [{ key := "MOTD", value := "\"\\\n\x1fé🚢" }] }]
  services := [{
    name := ""
    image := some ""
    volumes := [{}]
    endpoints := [{ port := some (-1) }] }]
  applications := [{ name := "web", references := ["store"], waitFor := some [] }]
  references := [{ source := "web", target := "store", connectionEnv := some "DATABASE_URL" }]

def depotOptions : Options where
  projectName := .text "depot"
  instant := .flag false
  repository := some { location := .text "https://example.org/depot", branch := .null }

theorem depot_read_back :
    Json.Undoes (fun s => Json.read? s.toList) Json.IsShort ∧
    (Json.read? (depot.exported false .json).toList).map Model.ofValue = some depot ∧
    (∃ b, Declaration.readProgram Declaration.shopProgram.toList = .ok b ∧
      b.model.references ≠ [] ∧ ∀ r ∈ b.model.references, r.connectionEnv ≠ some "") ∧
    (Json.read? (exportOperations (depot.operations depotOptions) .json).toList).map
      Operation.listOf = some (depot.operations depotOptions) := by
  obtain ⟨models, programs, plans⟩ := export_lossless Json.undoes_read
  have numbers : ∀ i ∈ depot.toValue.numbers, Json.IsShort i := by decide +kernel
  have planned : ∀ i ∈ (Operation.listDocument (depot.operations depotOptions)).numbers,
      Json.IsShort i := by decide +kernel
  have edges : ∀ r ∈ depot.references, r.connectionEnv ≠ some "" := by decide
  obtain ⟨b, read, model⟩ := Declaration.read_shopProgram
  have linked : b.model.references ≠ [] := by simp [model, Declaration.shopModel]
  exact ⟨Json.undoes_read, (models depot false numbers).2 edges,
    ⟨b, read, linked, programs _ b read⟩, plans depot depotOptions planned⟩

end HostPlan
