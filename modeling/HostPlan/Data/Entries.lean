/-!
Entries under keys, in the order in which the keys were first written. Writing a key a second time
changes its value and keeps its place.
-/
namespace HostPlan

abbrev Entries (κ α : Type) := List (κ × α)

namespace Entries

variable {κ α β : Type} [DecidableEq κ]

def put (k : κ) (v : α) : Entries κ α → Entries κ α
  | [] => [(k, v)]
  | (k', v') :: r => if k' = k then (k, v) :: r else (k', v') :: put k v r

def get? (k : κ) : Entries κ α → Option α
  | [] => none
  | (k', v) :: r => if k' = k then some v else get? k r

def ofList (pairs : List (κ × α)) : Entries κ α :=
  pairs.foldl (fun es p => put p.1 p.2 es) []

def keys (es : Entries κ α) : List κ := es.map Prod.fst

theorem put_cons (k : κ) (v : α) (e : κ × α) (r : Entries κ α) :
    put k v (e :: r) = if e.1 = k then (k, v) :: r else e :: put k v r := rfl

@[simp] theorem get?_nil (k : κ) : get? k ([] : Entries κ α) = none := rfl

theorem get?_cons (k : κ) (e : κ × α) (r : Entries κ α) :
    get? k (e :: r) = if e.1 = k then some e.2 else get? k r := rfl

theorem get?_put_self (k : κ) (v : α) (es : Entries κ α) : get? k (put k v es) = some v := by
  induction es with
  | nil => exact if_pos rfl
  | cons e r ih =>
    by_cases h : e.1 = k
    · simp [put_cons, get?_cons, h]
    · simp [put_cons, get?_cons, h, ih]

theorem get?_put_of_ne {k k' : κ} (h : k' ≠ k) (v : α) (es : Entries κ α) :
    get? k' (put k v es) = get? k' es := by
  induction es with
  | nil => exact if_neg h.symm
  | cons e r ih =>
    by_cases h₁ : e.1 = k
    · simp [put_cons, get?_cons, h₁, h.symm]
    · by_cases h₂ : e.1 = k'
      · simp [put_cons, get?_cons, h₂, h]
      · simp [put_cons, get?_cons, h₁, h₂, ih]

theorem keys_put (k : κ) (v : α) (es : Entries κ α) :
    keys (put k v es) = if k ∈ keys es then keys es else keys es ++ [k] := by
  induction es with
  | nil => rfl
  | cons e r ih =>
    by_cases h : e.1 = k
    · simp [put_cons, keys, h]
    · simp only [keys] at ih
      by_cases hr : k ∈ r.map Prod.fst <;> simp [put_cons, keys, h, Ne.symm h, ih, hr]

theorem get?_put (k k' : κ) (v : α) (es : Entries κ α) :
    get? k' (put k v es) = if k = k' then some v else get? k' es := by
  by_cases h : k = k'
  · rw [if_pos h, ← h, get?_put_self]
  · rw [if_neg h, get?_put_of_ne (Ne.symm h)]

/-- Of several values for a key the last one counts. -/
theorem get?_ofList (k : κ) (pairs : List (κ × α)) :
    get? k (ofList pairs) = (pairs.reverse.find? fun p => p.1 = k).map Prod.snd := by
  have upon : ∀ es : Entries κ α, get? k (pairs.foldl (fun es p => put p.1 p.2 es) es) =
      ((pairs.reverse.find? fun p => p.1 = k).map Prod.snd).or (get? k es) := by
    induction pairs with
    | nil => intro es; rfl
    | cons p rest ih =>
      intro es
      rw [List.foldl_cons, ih, get?_put, List.reverse_cons, List.find?_append]
      by_cases h : p.1 = k
      · cases rest.reverse.find? fun p => p.1 = k <;> simp [h]
      · cases rest.reverse.find? fun p => p.1 = k <;> simp [h]
  rw [ofList, upon]
  exact Option.or_none

end Entries
end HostPlan
