import HostPlan.Proofs.Source.Mask
import HostPlan.Source.Chain
/-!
One step of a search for chains, and one step of a row of calls: what they come upon, and from where
they go on.
-/
namespace HostPlan.Source

open Text

section Calls

variable {s rest : List Char} {c : MethodCall}

theorem readCalls_none (h : nextCall s = .none) : readCalls s = ⟨[], s, true⟩ := by
  rw [readCalls]
  split <;> simp_all

theorem readCalls_unclosed (h : nextCall s = .unclosed) : readCalls s = ⟨[], s, false⟩ := by
  rw [readCalls]
  split <;> simp_all

theorem readCalls_call (h : nextCall s = .call c rest) :
    readCalls s = { readCalls rest with calls := c :: (readCalls rest).calls } := by
  rw [readCalls]
  split <;> simp_all

end Calls

section Steps

variable {position before : Nat} {text mask : List Char} {root : Root}

theorem search_none (h : findRoot true mask = none) : search position text mask = [] := by
  rw [search]
  split <;> simp_all

theorem search_chain (h : findRoot true mask = some (before, root)) {c : Chain} {rest : List Char}
    {taken : Nat} (hc : readChain? root (text.drop before)
      (text.drop (mask.length - root.rest.length)) = some (c, rest))
    (ht : taken = max (mask.length - root.rest.length) (text.length - rest.length)) :
    search position text mask =
      .chain (position + before) c ::
        search (position + taken) (text.drop taken) (mask.drop taken) := by
  rw [search]
  split <;> simp_all

theorem search_unclosed (h : findRoot true mask = some (before, root)) {taken : Nat}
    (ht : taken = mask.length - root.rest.length)
    (hc : readChain? root (text.drop before) (text.drop taken) = none) :
    search position text mask =
      .unclosed (position + before) (String.ofList ((text.drop before).take snippetLength)) ::
        search (position + taken) (text.drop taken) (mask.drop taken) := by
  rw [search]
  split <;> simp_all

end Steps

section Roots

/-- The root with this many characters before it. -/
def shift (k : Nat) (found : Nat × Root) : Nat × Root := (k + found.1, found.2)

theorem shift_zero : shift 0 = id := by
  funext found
  simp [shift]

theorem shift_comp (j k : Nat) : shift j ∘ shift k = shift (j + k) := by
  funext found
  simp [shift, Nat.add_assoc]

/-- A root begins with the text, or it is the first one behind the first character. -/
theorem findRoot_cons (fresh : Bool) (c : Char) (s : List Char) :
    findRoot fresh (c :: s) =
      ((if fresh && isWord c then root? (c :: s) else none).map (Prod.mk 0)).or
        ((findRoot (!isWord c) s).map (shift 1)) := by
  have one : shift 1 = fun found => (found.1 + 1, found.2) := by
    funext found
    rw [shift, Nat.add_comm]
  rw [findRoot, one]
  simp only
  split
  · cases root? (c :: s) <;> rfl
  · rfl

theorem findRoot_blank {l : List Char} (hl : Blank l) (m : List Char) :
    findRoot true (l ++ m) = (findRoot true m).map (shift l.length) := by
  induction l with
  | nil => simp [shift_zero]
  | cons c l ih =>
    obtain ⟨head, tail⟩ := List.forall_mem_cons.1 hl
    have noWord : isWord c = false := by
      cases hc : isWord c with
      | false => rfl
      | true =>
        rw [isBlank_of_isWord hc] at head
        cases head
    rw [List.cons_append, findRoot_cons, noWord, List.length_cons, Nat.add_comm, ← shift_comp,
      ← Option.map_map, ← ih tail]
    rfl

end Roots

section Places

variable {position n : Nat} {root : Root} {x y v p q m : List Char} {c : Chain}

/-- A search comes upon a root whose name ends with `x` and whose brackets do not close. -/
theorem search_broken (length : x.length = p.length)
    (found : findRoot true (p ++ m) = some (n, root)) (rest : root.rest.length = m.length)
    (hc : readChain? root ((x ++ v).drop n) v = none) :
    search position (x ++ v) (p ++ m) =
      .unclosed (position + n) (String.ofList (((x ++ v).drop n).take snippetLength)) ::
        search (position + x.length) v m := by
  have taken : x.length = (p ++ m).length - root.rest.length := by
    rw [List.length_append]
    omega
  have here : readChain? root ((x ++ v).drop n) ((x ++ v).drop x.length) = none := by
    rwa [List.drop_left]
  rw [search_unclosed found taken here, List.drop_left, List.drop_left' length.symm]

/-- A search comes upon a root whose name ends with `x` and whose chain ends with `y`. -/
theorem search_read (length : x.length = p.length) (length' : y.length = q.length)
    (found : findRoot true (p ++ (q ++ m)) = some (n, root))
    (rest : root.rest.length = (q ++ m).length)
    (hc : readChain? root ((x ++ (y ++ v)).drop n) (y ++ v) = some (c, v)) :
    search position (x ++ (y ++ v)) (p ++ (q ++ m)) =
      .chain (position + n) c :: search (position + (x ++ y).length) v m := by
  have taken : (p ++ (q ++ m)).length - root.rest.length = x.length := by
    rw [rest, length, List.length_append, Nat.add_sub_cancel]
  have here : readChain? root ((x ++ (y ++ v)).drop n)
      ((x ++ (y ++ v)).drop ((p ++ (q ++ m)).length - root.rest.length)) = some (c, v) := by
    rwa [taken, List.drop_left]
  have reach : (x ++ y).length = max ((p ++ (q ++ m)).length - root.rest.length)
      ((x ++ (y ++ v)).length - v.length) := by
    rw [taken]
    simp only [List.length_append]
    omega
  have both : (p ++ q).length = (x ++ y).length := by
    rw [List.length_append, List.length_append, length, length']
  rw [search_chain found here reach, ← List.append_assoc, ← List.append_assoc, List.drop_left,
    List.drop_left' both]

/-- A search goes over a text whose mask neither holds a root nor is part of one. -/
theorem search_skip (position : Nat) (length : x.length = p.length)
    (skip : findRoot true (p ++ m) = (findRoot true m).map (shift p.length)) :
    search position (x ++ v) (p ++ m) = search (position + p.length) v m := by
  cases h : findRoot true m with
  | none =>
    rw [h] at skip
    rw [search_none skip, search_none h]
  | some found =>
    obtain ⟨n, root⟩ := found
    rw [h] at skip
    have fits := findRoot_rest h
    have taken : (p ++ m).length - root.rest.length = p.length + (m.length - root.rest.length) := by
      rw [List.length_append]
      omega
    have dropped {α : Type} (s t : List α) (hs : s.length = p.length) (k : Nat) :
        (s ++ t).drop (p.length + k) = t.drop k := by
      rw [← hs, List.drop_length_add_append]
    cases hc : readChain? root (v.drop n) (v.drop (m.length - root.rest.length)) with
    | none =>
      have further : readChain? root ((x ++ v).drop (p.length + n))
          ((x ++ v).drop (p.length + (m.length - root.rest.length))) = none := by
        rw [dropped _ _ length, dropped _ _ length, hc]
      rw [search_unclosed h rfl hc, search_unclosed skip taken.symm further,
        dropped _ _ length, dropped _ _ length, dropped _ _ rfl]
      simp only [Nat.add_assoc]
    | some read =>
      obtain ⟨c, rest⟩ := read
      have further : readChain? root ((x ++ v).drop (p.length + n))
          ((x ++ v).drop ((p ++ m).length - root.rest.length)) = some (c, rest) := by
        rw [taken, dropped _ _ length, dropped _ _ length, hc]
      have total : p.length + max (m.length - root.rest.length) (v.length - rest.length) =
          max ((p ++ m).length - root.rest.length) ((x ++ v).length - rest.length) := by
        rw [taken, List.length_append, length]
        omega
      rw [search_chain h hc rfl, search_chain skip further total, dropped _ _ length,
        dropped _ _ rfl]
      simp only [Nat.add_assoc]

end Places

end HostPlan.Source
