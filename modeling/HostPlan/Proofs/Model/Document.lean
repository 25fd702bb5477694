import HostPlan.Model.Document
import HostPlan.Proofs.Data.WellFormed
/-!
What the document of a model says of the model. Reading does not see whether the nulls of a document
were left out, since a field that is missing is read as one that holds null; and every field of a
record is read back from where it was put.
-/
namespace HostPlan

open Value

namespace Value

variable {v : Value}

theorem getText_prune (h : v.WellFormed) (key default : String) :
    v.prune.getText key default = v.getText key default := by
  rw [getText, getText, field_prune h]
  cases v.field key <;> rfl

theorem getText?_prune (h : v.WellFormed) (key : String) :
    v.prune.getText? key = v.getText? key := by
  rw [getText?, getText?, field_prune h]
  cases v.field key <;> rfl

theorem getNumber?_prune (h : v.WellFormed) (key : String) :
    v.prune.getNumber? key = v.getNumber? key := by
  rw [getNumber?, getNumber?, field_prune h]
  cases v.field key <;> rfl

theorem getFlag_prune (h : v.WellFormed) (key : String) (default : Bool) :
    v.prune.getFlag key default = v.getFlag key default := by
  rw [getFlag, getFlag, field_prune h]
  cases v.field key <;> rfl

theorem list?_prune (v : Value) : v.prune.list? = v.list?.map fun items => items.map prune := by
  cases v with
  | list items => rw [prune_list, pruneItems_eq]; rfl
  | _ => rfl

theorem getTexts?_prune (h : v.WellFormed) (key : String) :
    v.prune.getTexts? key = v.getTexts? key := by
  have text (w : Value) : w.prune.text? = w.text? := by cases w <;> rfl
  rw [getTexts?, getTexts?, field_prune h, list?_prune, Option.map_map]
  congr 1
  funext items
  simp [List.filterMap_map, text]

theorem getTexts_prune (h : v.WellFormed) (key : String) :
    v.prune.getTexts key = v.getTexts key := by
  rw [getTexts, getTexts, getTexts?_prune h]

theorem getList_prune (h : v.WellFormed) (key : String) :
    v.prune.getList key = (v.getList key).map prune := by
  rw [getList, getList, field_prune h, list?_prune]
  cases (v.field key).list? <;> rfl

theorem wellFormed_of_mem_getList (h : v.WellFormed) {key : String} {w : Value}
    (hw : w ∈ v.getList key) : w.WellFormed := by
  have whole := wellFormed_field h key
  unfold getList at hw
  cases shape : v.field key with
  | list items =>
    rw [shape] at whole hw
    exact wellFormed_list.1 whole w hw
  | _ =>
    rw [shape] at hw
    cases hw

/-- Records in a list are read without their nulls as with them. -/
theorem map_getList_prune {α : Type} {read : Value → α}
    (same : ∀ w : Value, w.WellFormed → read w.prune = read w) (h : v.WellFormed) (key : String) :
    (v.prune.getList key).map read = (v.getList key).map read := by
  rw [getList_prune h, List.map_map]
  exact List.map_congr_left fun w hw => same w (wellFormed_of_mem_getList h hw)

end Value

section Pruned

variable {v : Value}

theorem Variable.ofValue_prune (h : v.WellFormed) :
    Variable.ofValue v.prune = Variable.ofValue v := by
  simp only [Variable.ofValue, getText_prune h, getFlag_prune h]

theorem Volume.ofValue_prune (h : v.WellFormed) :
    Volume.ofValue v.prune = Volume.ofValue v := by
  simp only [Volume.ofValue, getText?_prune h, getFlag_prune h]

theorem Endpoint.ofValue_prune (h : v.WellFormed) :
    Endpoint.ofValue v.prune = Endpoint.ofValue v := by
  simp only [Endpoint.ofValue, getText_prune h, getText?_prune h, getFlag_prune h,
    getNumber?_prune h]

theorem Database.ofValue_prune (h : v.WellFormed) :
    Database.ofValue v.prune = Database.ofValue v := by
  simp only [Database.ofValue, getText_prune h, getText?_prune h, getFlag_prune h,
    getNumber?_prune h, map_getList_prune (fun _ => Variable.ofValue_prune) h]

theorem Service.ofValue_prune (h : v.WellFormed) :
    Service.ofValue v.prune = Service.ofValue v := by
  simp only [Service.ofValue, getText_prune h, getText?_prune h, getNumber?_prune h,
    getTexts_prune h, map_getList_prune (fun _ => Variable.ofValue_prune) h,
    map_getList_prune (fun _ => Volume.ofValue_prune) h,
    map_getList_prune (fun _ => Endpoint.ofValue_prune) h]

theorem Storage.ofValue_prune (h : v.WellFormed) :
    Storage.ofValue v.prune = Storage.ofValue v := by
  simp only [Storage.ofValue, getText_prune h, getText?_prune h, getNumber?_prune h,
    map_getList_prune (fun _ => Variable.ofValue_prune) h,
    map_getList_prune (fun _ => Volume.ofValue_prune) h]

theorem Application.ofValue_prune (h : v.WellFormed) :
    Application.ofValue v.prune = Application.ofValue v := by
  simp only [Application.ofValue, getText_prune h, getText?_prune h, getTexts_prune h,
    getTexts?_prune h, map_getList_prune (fun _ => Variable.ofValue_prune) h,
    map_getList_prune (fun _ => Endpoint.ofValue_prune) h]

end Pruned

section Read

theorem text?_ofOption (o : Option String) : (ofOption .text o).text? = o := by
  cases o <;> rfl

theorem getNumber?_eq {v : Value} {key : String} {o : Option Int}
    (h : v.field key = ofOption .number o) : v.getNumber? key = o := by
  rw [getNumber?, h]
  cases o <;> rfl

theorem filterMap_text? (ss : List String) : (ss.map Value.text).filterMap Value.text? = ss := by
  simp [List.filterMap_map, Function.comp_def, text?]

theorem getTexts_eq {v : Value} {key : String} {ss : List String} (h : v.field key = texts ss) :
    v.getTexts key = ss := by
  rw [getTexts, getTexts?, h]
  exact filterMap_text? ss

theorem getTexts?_eq {v : Value} {key : String} {o : Option (List String)}
    (h : v.field key = ofOption texts o) : v.getTexts? key = o := by
  rw [getTexts?, h]
  cases o with
  | none => rfl
  | some ss => exact congrArg some (filterMap_text? ss)

theorem map_getList_eq {α : Type} {read : Value → α} {write : α → Value}
    (back : ∀ a, read (write a) = a) {v : Value} {key : String} {as : List α}
    (h : v.field key = .list (as.map write)) : (v.getList key).map read = as := by
  simp [getList, h, list?, Function.comp_def, back]

theorem Variable.ofValue_toValue (e : Variable) : Variable.ofValue e.toValue = e := by
  simp [Variable.ofValue, Variable.toValue, getText, getFlag, field, Entries.get?_cons]

theorem Volume.ofValue_toValue (e : Volume) : Volume.ofValue e.toValue = e := by
  simp [Volume.ofValue, Volume.toValue, getText?, getFlag, field, Entries.get?_cons, text?_ofOption]

theorem Endpoint.ofValue_toValue (e : Endpoint) : Endpoint.ofValue e.toValue = e := by
  have port : e.toValue.getNumber? "port" = e.port := getNumber?_eq rfl
  have target : e.toValue.getNumber? "target_port" = e.targetPort := getNumber?_eq rfl
  rw [Endpoint.ofValue, port, target]
  simp [Endpoint.toValue, getText, getText?, getFlag, field, Entries.get?_cons, text?_ofOption]

theorem Database.ofValue_toValue (d : Database) : Database.ofValue d.toValue = d := by
  have port : d.toValue.getNumber? "host_port" = d.hostPort := getNumber?_eq rfl
  have environment : (d.toValue.getList "environment").map Variable.ofValue = d.environment :=
    map_getList_eq Variable.ofValue_toValue rfl
  rw [Database.ofValue, port, environment]
  simp [Database.toValue, getText, getText?, getFlag, field, Entries.get?_cons, text?_ofOption]

theorem Service.ofValue_toValue (s : Service) : Service.ofValue s.toValue = s := by
  have port : s.toValue.getNumber? "host_port" = s.hostPort := getNumber?_eq rfl
  have environment : (s.toValue.getList "environment").map Variable.ofValue = s.environment :=
    map_getList_eq Variable.ofValue_toValue rfl
  have volumes : (s.toValue.getList "volumes").map Volume.ofValue = s.volumes :=
    map_getList_eq Volume.ofValue_toValue rfl
  have endpoints : (s.toValue.getList "endpoints").map Endpoint.ofValue = s.endpoints :=
    map_getList_eq Endpoint.ofValue_toValue rfl
  have references : s.toValue.getTexts "references" = s.references := getTexts_eq rfl
  rw [Service.ofValue, port, environment, volumes, endpoints, references]
  simp [Service.toValue, getText, getText?, field, Entries.get?_cons, text?_ofOption]

theorem Storage.ofValue_toValue (s : Storage) : Storage.ofValue s.toValue = s := by
  have port : s.toValue.getNumber? "host_port" = s.hostPort := getNumber?_eq rfl
  have environment : (s.toValue.getList "environment").map Variable.ofValue = s.environment :=
    map_getList_eq Variable.ofValue_toValue rfl
  have volumes : (s.toValue.getList "volumes").map Volume.ofValue = s.volumes :=
    map_getList_eq Volume.ofValue_toValue rfl
  rw [Storage.ofValue, port, environment, volumes]
  simp [Storage.toValue, getText, getText?, field, Entries.get?_cons, text?_ofOption]

theorem Application.ofValue_toValue (a : Application) : Application.ofValue a.toValue = a := by
  have environment : (a.toValue.getList "environment").map Variable.ofValue = a.environment :=
    map_getList_eq Variable.ofValue_toValue rfl
  have endpoints : (a.toValue.getList "endpoints").map Endpoint.ofValue = a.endpoints :=
    map_getList_eq Endpoint.ofValue_toValue rfl
  have references : a.toValue.getTexts "references" = a.references := getTexts_eq rfl
  have waits : a.toValue.getTexts? "wait_for" = a.waitFor := getTexts?_eq rfl
  rw [Application.ofValue, environment, endpoints, references, waits]
  simp [Application.toValue, getText, getText?, field, Entries.get?_cons, text?_ofOption]

/-- An edge as its document has it: without an empty variable. -/
def Reference.settled (r : Reference) : Reference :=
  { r with connectionEnv := if r.connectionEnv = some "" then none else r.connectionEnv }

theorem Reference.ofValue_toValue (r : Reference) : Reference.ofValue r.toValue = r.settled := by
  unfold Reference.toValue Reference.settled
  split
  · rename_i none
    rw [none]
    simp [Reference.ofValue, getText, getText?, field, Entries.get?_cons, text?]
  · rename_i empty
    rw [empty]
    simp [Reference.ofValue, getText, getText?, field, Entries.get?_cons, text?]
  · rename_i s named given
    rw [given]
    simpa [Reference.ofValue, getText, getText?, field, Entries.get?_cons, text?] using named

theorem Reference.settled_eq_self_iff {r : Reference} :
    r.settled = r ↔ r.connectionEnv ≠ some "" := by
  rcases r with ⟨source, target, env⟩
  by_cases empty : env = some "" <;> simp [Reference.settled, empty]

end Read

section WellFormed

theorem Variable.wellFormed_toValue (e : Variable) : e.toValue.WellFormed := by
  simp [Variable.toValue, Entries.keys]

theorem Volume.wellFormed_toValue (e : Volume) : e.toValue.WellFormed := by
  simp [Volume.toValue, Entries.keys]

theorem Endpoint.wellFormed_toValue (e : Endpoint) : e.toValue.WellFormed := by
  simp [Endpoint.toValue, Entries.keys]

theorem Database.wellFormed_toValue (d : Database) : d.toValue.WellFormed := by
  simp [Database.toValue, Entries.keys, Variable.wellFormed_toValue]

theorem Service.wellFormed_toValue (s : Service) : s.toValue.WellFormed := by
  simp [Service.toValue, texts, Entries.keys, Variable.wellFormed_toValue,
    Volume.wellFormed_toValue, Endpoint.wellFormed_toValue]

theorem Storage.wellFormed_toValue (s : Storage) : s.toValue.WellFormed := by
  simp [Storage.toValue, Entries.keys, Variable.wellFormed_toValue, Volume.wellFormed_toValue]

theorem wellFormed_texts (ss : List String) : (texts ss).WellFormed := by
  simp [texts]

theorem Application.wellFormed_toValue (a : Application) : a.toValue.WellFormed := by
  simp [Application.toValue, Entries.keys, wellFormed_texts, Variable.wellFormed_toValue,
    Endpoint.wellFormed_toValue]

theorem Reference.wellFormed_toValue (r : Reference) : r.toValue.WellFormed := by
  unfold Reference.toValue
  split <;> simp [Entries.keys]

theorem Model.wellFormed_toValue (m : Model) : m.toValue.WellFormed := by
  have database (d : Database) := wellFormed_prune d.wellFormed_toValue
  have storage (s : Storage) := wellFormed_prune s.wellFormed_toValue
  have service (s : Service) := wellFormed_prune s.wellFormed_toValue
  have application (a : Application) := wellFormed_prune a.wellFormed_toValue
  simp [Model.toValue, Entries.keys, database, storage, service, application,
    Reference.wellFormed_toValue]

end WellFormed

/-- Of a model, its document leaves out no more than the empty variables of its edges. -/
theorem Model.ofValue_toValue (m : Model) :
    Model.ofValue m.toValue = { m with references := m.references.map Reference.settled } := by
  have databases : (m.toValue.getList "databases").map Database.ofValue = m.databases :=
    map_getList_eq (fun d => (Database.ofValue_prune d.wellFormed_toValue).trans
      d.ofValue_toValue) rfl
  have storage : (m.toValue.getList "storage").map Storage.ofValue = m.storage :=
    map_getList_eq (fun s => (Storage.ofValue_prune s.wellFormed_toValue).trans
      s.ofValue_toValue) rfl
  have services : (m.toValue.getList "services").map Service.ofValue = m.services :=
    map_getList_eq (fun s => (Service.ofValue_prune s.wellFormed_toValue).trans
      s.ofValue_toValue) rfl
  have applications : (m.toValue.getList "applications").map Application.ofValue = m.applications :=
    map_getList_eq (fun a => (Application.ofValue_prune a.wellFormed_toValue).trans
      a.ofValue_toValue) rfl
  have references : (m.toValue.getList "references").map Reference.ofValue =
      m.references.map Reference.settled := by
    simp [Model.toValue, getList, field, Entries.get?_cons, list?, Function.comp_def,
      Reference.ofValue_toValue]
  rw [Model.ofValue, databases, storage, services, applications, references]

theorem Model.ofValue_toValue_iff (m : Model) :
    Model.ofValue m.toValue = m ↔ ∀ r ∈ m.references, r.connectionEnv ≠ some "" := by
  have edges : m.references.map Reference.settled = m.references ↔
      ∀ r ∈ m.references, r.connectionEnv ≠ some "" := by
    have each := List.map_inj_left (l := m.references) (f := Reference.settled) (g := id)
    simpa only [List.map_id, id_eq, Reference.settled_eq_self_iff] using each
  rw [m.ofValue_toValue, ← edges]
  constructor
  · exact fun same => congrArg Model.references same
  · exact fun same => by rw [same]

end HostPlan
