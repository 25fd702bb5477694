import HostPlan.Proofs.Deploy.Turn
/-!
When a resource counts as existing. The last object that a listing has under the name of the
resource decides: the resource exists unless that object says that its identifier is null. A
resource that exists is left alone; one that does not is created, even if it is listed.
-/
namespace HostPlan.Deploy

open Remote

/-- The listing in which a resource of a category would be found. -/
def Client.listing (client : Client) : Category → Reply
  | .database => client.databases
  | .application => client.applications
  | _ => client.services

theorem Client.lookup_inventory (client : Client) (k : Category) :
    client.inventory.lookup k = names (client.listing k).answer := by
  cases k <;> rfl

theorem names_list (items : List Value) :
    names (.success (.list items)) = Entries.ofList (items.filterMap listed?) := rfl

theorem listed?_record {fields : Entries String Value} {name : String}
    (named : Entries.get? "name" fields = some (.text name)) (filled : name ≠ "") :
    listed? (.record fields) =
      some (.text name, (Entries.get? "uuid" fields).getD (.text "")) := by
  have text : (Value.record fields).field "name" = .text name := by
    rw [Value.field, named]
    rfl
  have word : (Scalar.text name).isFilled = true := by simpa [Scalar.isFilled] using filled
  simp [listed?, Value.record?, text, word]

/-- What is listed under a name bears it. -/
theorem name_of_listed? {item : Value} {name : String} {identifier : Value}
    (h : listed? item = some (.text name, identifier)) : item.field "name" = .text name := by
  simp only [listed?, Option.bind_eq_bind, Option.bind_eq_some_iff] at h
  obtain ⟨fields, _, word, hword, found⟩ := h
  split at found
  · obtain ⟨rfl, _⟩ := Prod.mk.inj (Option.some.inj found)
    cases text : item.field "name" with
    | text s =>
      rw [text] at hword
      exact congrArg Value.text (Scalar.text.inj (Option.some.inj hword))
    | _ => rw [text] at hword; cases hword
  · cases found

/-- What the listing finds under a name is shown by one of its objects. -/
theorem shown_of_find? {items : List Value} {name : String} {p : Scalar × Value}
    (last : ((items.filterMap listed?).reverse.find? fun p => p.1 = .text name) = some p) :
    ∃ item ∈ items, listed? item = some (.text name, p.2) := by
  obtain ⟨item, mem, shown⟩ :=
    List.mem_filterMap.1 (List.mem_reverse.1 (List.mem_of_find?_eq_some last))
  have named : p.1 = .text name := by simpa using List.find?_some last
  exact ⟨item, mem, by rw [shown, ← named]⟩

section Listed

variable {client : Client} {r : Resource}

theorem existing?_eq_some_iff {v : Value} :
    client.inventory.existing? r = some v ↔
      Entries.get? (.text r.name) (names (client.listing r.category).answer) = some v ∧
        v.isNull = false := by
  rw [Inventory.existing?, client.lookup_inventory, Option.filter_eq_some_iff]
  simp

/-- The last object of that name decides what is found under it. -/
theorem get?_names_last {before after : List Value} {fields : Entries String Value} {name : String}
    (named : Entries.get? "name" fields = some (.text name)) (filled : name ≠ "")
    (last : ∀ item ∈ after, item.field "name" ≠ .text name) :
    Entries.get? (.text name) (names (.success (.list (before ++ .record fields :: after)))) =
      some ((Entries.get? "uuid" fields).getD (.text "")) := by
  have behind : ((after.filterMap listed?).reverse.find? fun p => p.1 = .text name) = none := by
    rw [List.find?_eq_none]
    intro p hp same
    obtain ⟨item, hitem, shown⟩ := List.mem_filterMap.1 (List.mem_reverse.1 hp)
    have here : listed? item = some (.text name, p.2) := by
      rw [shown, ← of_decide_eq_true same]
    exact last item hitem (name_of_listed? here)
  rw [names_list, Entries.get?_ofList, List.filterMap_append, List.filterMap_cons,
    listed?_record named filled, List.reverse_append, List.reverse_cons, List.append_assoc,
    List.find?_append, behind, Option.none_or, List.cons_append, List.find?_cons_of_pos (by simp)]
  rfl

/-- A listed resource exists if everything of its name has an identifier. -/
theorem exists_existing? {items : List Value} {item : Value} {v : Value}
    (listing : client.listing r.category = .answered (.success (.list items)))
    (mem : item ∈ items) (found : listed? item = some (.text r.name, v))
    (identified : ∀ other ∈ items, ∀ v, listed? other = some (.text r.name, v) → v.isNull = false) :
    ∃ v, client.inventory.existing? r = some v := by
  have listed : (Scalar.text r.name, v) ∈ (items.filterMap listed?).reverse :=
    List.mem_reverse.2 (List.mem_filterMap.2 ⟨item, mem, found⟩)
  cases last : (items.filterMap listed?).reverse.find? fun p => p.1 = .text r.name with
  | none =>
    rw [List.find?_eq_none] at last
    exact absurd (decide_eq_true rfl) (last _ listed)
  | some p =>
    obtain ⟨other, hother, shown⟩ := shown_of_find? last
    refine ⟨p.2, existing?_eq_some_iff.2 ⟨?_, identified other hother p.2 shown⟩⟩
    rw [listing, Reply.answer, names_list, Entries.get?_ofList, last]
    rfl

/-- What exists is listed. -/
theorem listed_of_existing? {v : Value} (h : client.inventory.existing? r = some v) :
    ∃ items, client.listing r.category = .answered (.success (.list items)) ∧
      ∃ item ∈ items, listed? item = some (.text r.name, v) := by
  have found := (existing?_eq_some_iff.1 h).1
  unfold names at found
  split at found
  · rename_i items listing
    refine ⟨items, ?_, ?_⟩
    · cases reply : client.listing r.category with
      | answered a =>
        rw [reply] at listing
        exact congrArg Reply.answered listing
      | raised message => simp [reply, Reply.answer] at listing
    · rw [Entries.get?_ofList, Option.map_eq_some_iff] at found
      obtain ⟨p, last, rfl⟩ := found
      exact shown_of_find? last
  · cases found

end Listed

/-- Nothing is asked of the client in the turn of the resource, and the run says that the resource
exists: as something to skip, or as a failure if existing things are not to be skipped. -/
structure Untouched (s : Settings) (i : Nat) (r : Resource) (run : Summary × Journal) : Prop where
  uncalled : ∀ c, (i + 1, c) ∉ run.2.calls
  skipped : s.skipExisting = true → ∃ v, run.1.results[i]? = some (.existing r v)
  refused : s.skipExisting = false →
    run.1.results[i]? = some (.failed r (.text (alreadyExists r)))

section Untouched

variable {client : Client} {s : Settings} {m : Model} {i : Nat} {r : Resource}

theorem untouched_of_existing? (place : m.resources[i]? = some r) {v : Value}
    (h : client.inventory.existing? r = some v) :
    Untouched s i r (client.deployment s m) where
  uncalled := by
    intro c asked
    rw [mem_deployment_calls client s m place, creation?, decision, h] at asked
    cases hs : s.skipExisting <;> simp [hs] at asked
  skipped := by
    intro skips
    rw [deployment_result client s m place, outcome, decision, h]
    exact ⟨v, by simp [skips]⟩
  refused := by
    intro refuses
    rw [deployment_result client s m place, outcome, decision, h]
    simp [refuses]

/-- What the platform does not run is reported as such, not as existing. -/
theorem unsupported_ne_alreadyExists (r : Resource) (kind : String) (h : r.category = .database) :
    "Unsupported database type: " ++ kind ≠ alreadyExists r := by
  intro same
  have first := congrArg (fun t => t.toList.head?) same
  simp [alreadyExists, h, label] at first

theorem category_of_unsupported (h : call? s r = none) : r.category = .database := by
  cases r with
  | database d => rfl
  | storage d => cases h
  | service d => cases h
  | application d => cases h

theorem existing?_of_untouched (place : m.resources[i]? = some r)
    (untouched : Untouched s i r (client.deployment s m)) :
    ∃ v, client.inventory.existing? r = some v := by
  cases h : client.inventory.existing? r with
  | some v => exact ⟨v, rfl⟩
  | none =>
    cases hc : call? s r with
    | some c =>
      have created : creation? s client.inventory r = some c := by
        simp only [creation?, decision, h, hc]
      exact absurd ((mem_deployment_calls client s m place c).2 created) (untouched.uncalled c)
    | none =>
      have result := deployment_result client s m place
      simp only [outcome, decision, h, hc] at result
      cases hs : s.skipExisting with
      | true =>
        obtain ⟨v, skipped⟩ := untouched.skipped hs
        rw [result] at skipped
        cases Option.some.inj skipped
      | false =>
        have refused := untouched.refused hs
        rw [result] at refused
        have same := congrArg Result.error (Option.some.inj refused)
        exact absurd (Value.text.inj same)
          (unsupported_ne_alreadyExists r r.kindName (category_of_unsupported hc))

end Untouched

namespace Twice

def model : Model where
  databases := [{ name := "orders" }]
  services := [{ name := "queue", kind := "rabbitmq" }]

def settings : Settings where
  target := ⟨.text "server", .text "project", .text "production"⟩

/-- Objects of one name, one with an identifier of null and one without an identifier. -/
def void (name : String) : Value := .record [("name", .text name), ("uuid", .null)]

def unmarked (name : String) : Value := .record [("uri", .text "/"), ("name", .text name)]

/-- A platform with one database, of which it does not know the identifier, and with two services of
the same name. -/
def client : Client where
  databases := .answered (.success (.list [void "orders"]))
  applications := .raised "timeout"
  services := .answered (.success (.list [void "queue", unmarked "queue", .null, unmarked "cache"]))
  create := fun _ => .answered (.success .null)

end Twice

end HostPlan.Deploy
