import Mathlib.Data.List.Nodup
import HostPlan.Data.Prune
/-!
Values that a document can hold: no key stands twice in a record, and all numbers are whole. Pruning
leaves such a value well formed, and under each of its keys it leaves what was there.
-/
namespace HostPlan

namespace Entries

variable {κ α : Type} [DecidableEq κ] {es : Entries κ α} {k : κ}

theorem put_of_not_mem (new : k ∉ keys es) (v : α) : put k v es = es ++ [(k, v)] := by
  induction es with
  | nil => rfl
  | cons e es ih =>
    obtain ⟨other, rest⟩ := List.ne_and_not_mem_of_not_mem_cons new
    rw [put_cons, if_neg (Ne.symm other), ih rest, List.cons_append]

/-- Entries that have their keys once are kept as they are. -/
theorem ofList_eq_self (distinct : (keys es).Nodup) : ofList es = es := by
  have upon (done : Entries κ α) (apart : (keys (done ++ es)).Nodup) :
      es.foldl (fun es p => put p.1 p.2 es) done = done ++ es := by
    induction es generalizing done with
    | nil => simp
    | cons e es ih =>
      have moved : done ++ e :: es = (done ++ [e]) ++ es := by simp
      have new : e.1 ∉ keys done := by
        intro mem
        rw [keys, List.map_append] at apart
        exact List.disjoint_of_nodup_append apart mem (by simp)
      rw [List.foldl_cons, put_of_not_mem new, moved]
      rw [moved] at apart
      exact ih (List.nodup_cons.1 distinct).2 (done ++ [e]) apart
  exact upon [] distinct

theorem get?_eq_none (missing : k ∉ keys es) : get? k es = none := by
  induction es with
  | nil => rfl
  | cons e es ih =>
    obtain ⟨other, rest⟩ := List.ne_and_not_mem_of_not_mem_cons missing
    rw [get?_cons, if_neg (Ne.symm other), ih rest]

theorem mem_of_get? {v : α} (found : get? k es = some v) : (k, v) ∈ es := by
  induction es with
  | nil => cases found
  | cons e es ih =>
    by_cases here : e.1 = k
    · rw [get?_cons, if_pos here, Option.some.injEq] at found
      rw [← here, ← found]
      exact List.mem_cons_self
    · rw [get?_cons, if_neg here] at found
      exact List.mem_cons_of_mem e (ih found)

end Entries

namespace Value

inductive WellFormed : Value → Prop where
  | null : WellFormed .null
  | flag (b : Bool) : WellFormed (.flag b)
  | number (i : Int) : WellFormed (.number i)
  | text (s : String) : WellFormed (.text s)
  | list {items : List Value} (each : ∀ v ∈ items, WellFormed v) : WellFormed (.list items)
  | record {fields : List (String × Value)} (distinct : (Entries.keys fields).Nodup)
      (each : ∀ f ∈ fields, WellFormed f.2) : WellFormed (.record fields)

attribute [simp] WellFormed.null WellFormed.flag WellFormed.number WellFormed.text

mutual

def numbers : Value → List Int
  | .number i => [i]
  | .list items => numbersOfItems items
  | .record fields => numbersOfFields fields
  | _ => []

def numbersOfItems : List Value → List Int
  | [] => []
  | v :: vs => numbers v ++ numbersOfItems vs

def numbersOfFields : List (String × Value) → List Int
  | [] => []
  | (_, v) :: fs => numbers v ++ numbersOfFields fs

end

variable {items : List Value} {fields : List (String × Value)} {v : Value}

@[simp] theorem wellFormed_list : (Value.list items).WellFormed ↔ ∀ v ∈ items, v.WellFormed :=
  ⟨fun h => by cases h with | list each => exact each, .list⟩

@[simp] theorem wellFormed_record : (Value.record fields).WellFormed ↔
    (Entries.keys fields).Nodup ∧ ∀ f ∈ fields, f.2.WellFormed :=
  ⟨fun h => by cases h with | record distinct each => exact ⟨distinct, each⟩,
    fun h => .record h.1 h.2⟩

@[simp] theorem wellFormed_ofOption {α : Type} {f : α → Value} {o : Option α}
    (h : ∀ a, (f a).WellFormed) : (ofOption f o).WellFormed := by
  cases o with
  | none => exact .null
  | some a => exact h a

theorem wellFormed_field (h : v.WellFormed) (key : String) : (v.field key).WellFormed := by
  cases h with
  | @record fields _ each =>
    simp only [field]
    cases found : Entries.get? key fields with
    | none => exact .null
    | some w => exact each _ (Entries.mem_of_get? found)
  | _ => exact .null

theorem numbersOfItems_eq : numbersOfItems items = items.flatMap numbers := by
  induction items with
  | nil => rfl
  | cons v vs ih => rw [numbersOfItems, ih, List.flatMap_cons]

theorem numbersOfFields_eq : numbersOfFields fields = fields.flatMap fun f => f.2.numbers := by
  induction fields with
  | nil => rfl
  | cons f fs ih => rw [numbersOfFields, ih, List.flatMap_cons]

section Prune

@[simp] theorem prune_text (s : String) : (Value.text s).prune = .text s := rfl

theorem prune_list (items : List Value) : (Value.list items).prune = .list (pruneItems items) := rfl

theorem prune_record (fields : List (String × Value)) :
    (Value.record fields).prune = .record (pruneFields fields) := rfl

theorem pruneItems_eq : pruneItems items = items.map prune := by
  induction items with
  | nil => rfl
  | cons v vs ih => rw [pruneItems, ih, List.map_cons]

theorem pruneFields_cons (f : String × Value) (fs : List (String × Value)) :
    pruneFields (f :: fs) =
      if f.2.isNull then pruneFields fs else (f.1, f.2.prune) :: pruneFields fs := rfl

theorem pruneFields_eq : pruneFields fields =
    (fields.filter fun f => !f.2.isNull).map fun f => (f.1, f.2.prune) := by
  induction fields with
  | nil => rfl
  | cons f fs ih =>
    cases empty : f.2.isNull <;> simp [pruneFields_cons, ih, empty]

theorem keys_pruneFields_sublist :
    (Entries.keys (pruneFields fields)).Sublist (Entries.keys fields) := by
  rw [pruneFields_eq, Entries.keys, List.map_map]
  exact List.filter_sublist.map Prod.fst

theorem wellFormed_prune (h : v.WellFormed) : v.prune.WellFormed := by
  induction h with
  | list _ ih =>
    rw [prune_list, pruneItems_eq, wellFormed_list]
    exact List.forall_mem_map.2 ih
  | record distinct _ ih =>
    rw [prune_record, wellFormed_record]
    refine ⟨distinct.sublist keys_pruneFields_sublist, ?_⟩
    rw [pruneFields_eq]
    exact List.forall_mem_map.2 fun f hf => ih f (List.mem_of_mem_filter hf)
  | _ => constructor

theorem isNull_iff : v.isNull = true ↔ v = .null := by
  cases v <;> simp [isNull]

theorem get?_pruneFields (distinct : (Entries.keys fields).Nodup) (key : String) :
    (Entries.get? key (pruneFields fields)).getD .null =
      ((Entries.get? key fields).getD .null).prune := by
  induction fields with
  | nil => rfl
  | cons f fields ih =>
    obtain ⟨new, rest⟩ := List.nodup_cons.1 distinct
    have onward := ih rest
    by_cases here : f.1 = key
    · cases empty : f.2.isNull with
      | true =>
        -- No second field has this key, so none comes forward in place of the null.
        have gone : Entries.get? key (pruneFields fields) = none :=
          Entries.get?_eq_none fun mem => new (here ▸ keys_pruneFields_sublist.subset mem)
        rw [pruneFields_cons, if_pos empty, gone, Entries.get?_cons, if_pos here, isNull_iff.1 empty]
        rfl
      | false => simp [pruneFields_cons, Entries.get?_cons, here, empty]
    · cases empty : f.2.isNull <;>
        simpa [pruneFields_cons, Entries.get?_cons, here, empty] using onward

/-- A field that pruning takes away is null where it is looked for. -/
theorem field_prune (h : v.WellFormed) (key : String) :
    v.prune.field key = (v.field key).prune := by
  cases h with
  | record distinct _ => exact get?_pruneFields distinct key
  | _ => rfl

end Prune

end Value
end HostPlan
