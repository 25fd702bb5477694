import HostPlan.Data.Yaml.Reader
import HostPlan.Proofs.Data.Yaml.Tokens
/-!
The tree of the tokens of a node. Where nothing was written there is an empty scalar.
-/
namespace HostPlan.Yaml

/-- A scalar as a tree. -/
def leafTree (m : Mark) : Scalar → Tree
  | .null => .empty m
  | .text s => .scalar (isPlain s.toList) none (reread s.toList) m
  | v => .scalar true none (printScalar 0 v) m

mutual

/-- The tree is the one of a node, wherever its parts stand in the text. -/
def Node.Yields : Node → Tree → Prop
  | .leaf v, t => ∃ m, t = leafTree m v
  | .list items, t => ∃ ts m, t = .list none ts m ∧ itemsYield items ts
  | .record fields, t => ∃ ts m, t = .record none ts m ∧ fieldsYield fields ts

def itemsYield : List Node → List Tree → Prop
  | [], ts => ts = []
  | n :: ns, ts => ∃ t us, ts = t :: us ∧ n.Yields t ∧ itemsYield ns us

def fieldsYield : List (String × Option String × Node) → List (Tree × Tree) → Prop
  | [], ts => ts = []
  | (k, _, n) :: fs, ts => ∃ m t us,
      ts = (.scalar (isPlain k.toList) none (reread k.toList) m, t) :: us ∧
        n.Yields t ∧ fieldsYield fs us

end

namespace Grammar

/-- Some tokens that a part of the grammar reads, with what it makes of them. -/
def Reads {α : Type} (p : Grammar α) (ts : List Token) (result : α → Prop) : Prop :=
  ∀ placed rest e as, placed.map Placed.token = ts →
    ∃ a, p.run ⟨⟨placed ++ rest, e⟩, as⟩ = .ok (a, ⟨⟨rest, e⟩, as⟩) ∧ result a

variable {ts : List Placed} {e : Option Fault} {as : List (String × Tree)}

/-- The tokens that end a slot for a node. -/
def slotEnds : List Token := [.blockEntry, .key, .value, .blockEnd]

/-- A node that was written begins with a token of its own. -/
theorem tokens_of_ne_null (n : Node) :
    n = .leaf .null ∨ ∃ t ts, n.tokens = t :: ts ∧ t ∉ slotEnds := by
  match n with
  | .leaf .null => exact .inl rfl
  | .leaf (.flag _) => exact .inr ⟨_, _, rfl, by simp [slotEnds]⟩
  | .leaf (.number _) => exact .inr ⟨_, _, rfl, by simp [slotEnds]⟩
  | .leaf (.text _) => exact .inr ⟨_, _, rfl, by simp [slotEnds, textToken]⟩
  | .list [] => exact .inr ⟨_, _, rfl, by simp [slotEnds]⟩
  | .list (_ :: _) => exact .inr ⟨_, _, rfl, by simp [slotEnds]⟩
  | .record [] => exact .inr ⟨_, _, rfl, by simp [slotEnds]⟩
  | .record (_ :: _) => exact .inr ⟨_, _, rfl, by simp [slotEnds]⟩

theorem run_unlessNext (ends : List Token) (m : Mark) (p : Grammar Tree) (t : Placed) :
    (unlessNext ends m p).run ⟨⟨t :: ts, e⟩, as⟩ =
      (if ends.contains t.token then pure (.empty m) else p).run ⟨⟨t :: ts, e⟩, as⟩ := rfl

theorem reads_scalar (plain : Bool) (text : List Char) (fuel : Nat) (dashes : Bool) :
    Reads (node (fuel + 1) true dashes) [.scalar plain text]
      fun t => ∃ m, t = .scalar plain none text m := by
  intro placed rest e as same
  obtain ⟨⟨_, m, _⟩, rfl, rfl⟩ := List.map_eq_singleton_iff.1 same
  exact ⟨_, rfl, m, rfl⟩

/-- Behind an item another one begins or the list ends. -/
theorem next_item (ns : List Node) {placed : List Placed}
    (same : placed.map Placed.token = itemTokens ns ++ [.blockEnd]) :
    ∃ t more, placed = t :: more ∧ t.token ∈ [Token.blockEntry, .blockEnd] := by
  cases ns with
  | nil =>
    obtain ⟨t, rfl, token⟩ := List.map_eq_singleton_iff.1 same
    exact ⟨t, [], rfl, by simp [token]⟩
  | cons n ns =>
    obtain ⟨t, more, rfl, token, -⟩ := List.map_eq_cons_iff.1 same
    exact ⟨t, more, rfl, by simp [token]⟩

theorem next_field (fs : List (String × Option String × Node)) {placed : List Placed}
    (same : placed.map Placed.token = fieldTokens fs ++ [.blockEnd]) :
    ∃ t more, placed = t :: more ∧ t.token ∈ [Token.key, .value, .blockEnd] := by
  cases fs with
  | nil =>
    obtain ⟨t, rfl, token⟩ := List.map_eq_singleton_iff.1 same
    exact ⟨t, [], rfl, by simp [token]⟩
  | cons f fs =>
    obtain ⟨t, more, rfl, token, -⟩ := List.map_eq_cons_iff.1 same
    exact ⟨t, more, rfl, by simp [token]⟩

mutual

theorem reads_node (n : Node) (dashes : Bool) {fuel : Nat} (written : n ≠ .leaf .null)
    (enough : n.tokens.length ≤ fuel) : Reads (node fuel true dashes) n.tokens n.Yields := by
  cases fuel with
  | zero =>
    rcases tokens_of_ne_null n with null | ⟨t, ts, tokens, -⟩
    · exact absurd null written
    · rw [tokens] at enough
      exact absurd enough (Nat.not_succ_le_zero _)
  | succ fuel =>
  match n with
  | .leaf .null => exact absurd rfl written
  | .leaf (.flag b) => exact reads_scalar true _ fuel dashes
  | .leaf (.number i) => exact reads_scalar true _ fuel dashes
  | .leaf (.text s) => exact reads_scalar _ _ fuel dashes
  | .list [] =>
    intro placed rest e as same
    rw [Node.tokens, List.map_eq_cons_iff] at same
    obtain ⟨⟨_, m, _⟩, more, rfl, rfl, same⟩ := same
    obtain ⟨⟨_, _, _⟩, rfl, rfl⟩ := List.map_eq_singleton_iff.1 same
    obtain ⟨fuel, rfl⟩ :=
      Nat.exists_eq_succ_of_ne_zero (Nat.ne_zero_of_lt (Nat.le_of_lt_succ enough))
    exact ⟨.list none [] m, rfl, [], m, rfl, rfl⟩
  | .record [] =>
    intro placed rest e as same
    rw [Node.tokens, List.map_eq_cons_iff] at same
    obtain ⟨⟨_, m, _⟩, more, rfl, rfl, same⟩ := same
    obtain ⟨⟨_, _, _⟩, rfl, rfl⟩ := List.map_eq_singleton_iff.1 same
    obtain ⟨fuel, rfl⟩ :=
      Nat.exists_eq_succ_of_ne_zero (Nat.ne_zero_of_lt (Nat.le_of_lt_succ enough))
    exact ⟨.record none [] m, rfl, [], m, rfl, rfl⟩
  | .list (n :: ns) =>
    intro placed rest e as same
    rw [Node.tokens, List.map_eq_cons_iff] at same
    obtain ⟨⟨_, m, m'⟩, more, rfl, rfl, same⟩ := same
    have fewer : (itemTokens (n :: ns)).length < fuel := by
      simp only [Node.tokens, List.length_cons, List.length_append, List.length_nil] at enough
      omega
    obtain ⟨items, read, yields⟩ := reads_items (n :: ns) m fewer more rest e as same
    have step : (node (fuel + 1) true dashes).run
        ⟨⟨⟨.blockSequence, m, m'⟩ :: (more ++ rest), e⟩, as⟩ =
        (blockItems fuel m).run ⟨⟨more ++ rest, e⟩, as⟩ >>= fun p => .ok (.list none p.1 m, p.2) :=
      rfl
    exact ⟨.list none items m, by rw [List.cons_append, step, read]; rfl, items, m, rfl, yields⟩
  | .record (f :: fs) =>
    intro placed rest e as same
    rw [Node.tokens, List.map_eq_cons_iff] at same
    obtain ⟨⟨_, m, m'⟩, more, rfl, rfl, same⟩ := same
    have fewer : (fieldTokens (f :: fs)).length < fuel := by
      simp only [Node.tokens, List.length_cons, List.length_append, List.length_nil] at enough
      omega
    obtain ⟨fields, read, yields⟩ := reads_fields (f :: fs) m fewer more rest e as same
    have step : (node (fuel + 1) true dashes).run
        ⟨⟨⟨.blockMapping, m, m'⟩ :: (more ++ rest), e⟩, as⟩ =
        (blockFields fuel m).run ⟨⟨more ++ rest, e⟩, as⟩ >>= fun p =>
          .ok (.record none p.1 m, p.2) := rfl
    exact ⟨.record none fields m, by rw [List.cons_append, step, read]; rfl, fields, m, rfl,
      yields⟩

/-- What stands in a slot for a node, with an end of the slot behind it. -/
theorem reads_slot (n : Node) (dashes : Bool) {fuel : Nat} (enough : n.tokens.length ≤ fuel)
    {ends : List Token} (known : ∀ t ∈ ends, t ∈ slotEnds) (m : Mark) {placed : List Placed}
    (rest : List Placed) {t : Placed} (next : t.token ∈ ends)
    (same : placed.map Placed.token = n.tokens) (e : Option Fault) (as : List (String × Tree)) :
    ∃ a, (unlessNext ends m (node fuel true dashes)).run ⟨⟨placed ++ t :: rest, e⟩, as⟩ =
      .ok (a, ⟨⟨t :: rest, e⟩, as⟩) ∧ n.Yields a := by
  rcases tokens_of_ne_null n with rfl | ⟨tok, ts, tokens, other⟩
  · obtain rfl : placed = [] := List.map_eq_nil_iff.1 same
    refine ⟨.empty m, ?_, m, rfl⟩
    rw [List.nil_append, run_unlessNext, List.contains_eq_mem, if_pos (by simpa using next)]
    rfl
  · have read := reads_node n dashes (by rintro rfl; cases tokens) enough placed (t :: rest) e as
      same
    rw [tokens] at same
    obtain ⟨first, more, rfl, rfl, -⟩ := List.map_eq_cons_iff.1 same
    have begun : ¬ ends.contains first.token = true := by
      rw [List.contains_eq_mem, decide_eq_true_iff]
      exact fun mem => other (known _ mem)
    rwa [List.cons_append, run_unlessNext, if_neg begun]

theorem reads_items (ns : List Node) (m : Mark) {fuel : Nat}
    (enough : (itemTokens ns).length < fuel) :
    Reads (blockItems fuel m) (itemTokens ns ++ [.blockEnd]) (itemsYield ns) := by
  intro placed rest e as same
  obtain ⟨fuel, rfl⟩ := Nat.exists_eq_succ_of_ne_zero (Nat.ne_zero_of_lt enough)
  match ns with
  | [] =>
    obtain ⟨⟨_, _, _⟩, rfl, rfl⟩ := List.map_eq_singleton_iff.1 same
    exact ⟨[], rfl, rfl⟩
  | n :: ns =>
    simp only [itemTokens, List.length_cons, List.length_append] at enough
    rw [itemTokens, List.cons_append, List.append_assoc, List.map_eq_cons_iff] at same
    obtain ⟨⟨_, m₁, m₂⟩, more, rfl, rfl, same⟩ := same
    obtain ⟨own, others, rfl, tokens, same⟩ := List.map_eq_append_iff.1 same
    obtain ⟨next, others, rfl, ends⟩ := next_item ns same
    obtain ⟨item, slot, yields⟩ := reads_slot n false
      (show n.tokens.length ≤ fuel by omega)
      (by decide : ∀ t ∈ [Token.blockEntry, .blockEnd], t ∈ slotEnds) m₂ (others ++ rest) ends
      tokens e as
    obtain ⟨items, read, yieldAll⟩ :=
      reads_items ns m (show (itemTokens ns).length < fuel by omega) _ rest e as same
    have step : (blockItems (fuel + 1) m).run
        ⟨⟨⟨.blockEntry, m₁, m₂⟩ :: (own ++ next :: (others ++ rest)), e⟩, as⟩ =
        (unlessNext [.blockEntry, .blockEnd] m₂ (node fuel true false)).run
            ⟨⟨own ++ next :: (others ++ rest), e⟩, as⟩ >>= fun p =>
          (blockItems fuel m).run p.2 >>= fun q => .ok (p.1 :: q.1, q.2) := rfl
    refine ⟨item :: items, ?_, item, items, rfl, yields, yieldAll⟩
    have parts : Placed.mk .blockEntry m₁ m₂ :: (own ++ next :: others) ++ rest =
        ⟨.blockEntry, m₁, m₂⟩ :: (own ++ next :: (others ++ rest)) := by simp
    have onward : (.ok (item, ⟨⟨next :: (others ++ rest), e⟩, as⟩) >>= fun p : Tree × Feed =>
        (blockItems fuel m).run p.2 >>= fun q => .ok (p.1 :: q.1, q.2)) =
        (blockItems fuel m).run ⟨⟨next :: others ++ rest, e⟩, as⟩ >>= fun q =>
          .ok (item :: q.1, q.2) := rfl
    rw [parts, step, slot, onward, read]
    rfl

theorem reads_fields (fs : List (String × Option String × Node)) (m : Mark) {fuel : Nat}
    (enough : (fieldTokens fs).length < fuel) :
    Reads (blockFields fuel m) (fieldTokens fs ++ [.blockEnd]) (fieldsYield fs) := by
  intro placed rest e as same
  obtain ⟨fuel, rfl⟩ := Nat.exists_eq_succ_of_ne_zero (Nat.ne_zero_of_lt enough)
  match fs with
  | [] =>
    obtain ⟨⟨_, _, _⟩, rfl, rfl⟩ := List.map_eq_singleton_iff.1 same
    exact ⟨[], rfl, rfl⟩
  | (key, note, n) :: fs =>
    simp only [fieldTokens, List.length_cons, List.length_append] at enough
    obtain ⟨fuel, rfl⟩ : ∃ f, fuel = f + 1 := Nat.exists_eq_succ_of_ne_zero (by omega)
    simp only [fieldTokens, List.cons_append, List.append_assoc, List.map_eq_cons_iff] at same
    obtain ⟨⟨_, m₁, m₂⟩, _, rfl, rfl, ⟨_, m₃, m₄⟩, _, rfl, name, ⟨_, m₅, m₆⟩, more, rfl, rfl,
      same⟩ := same
    obtain rfl : _ = textToken key.toList := name
    obtain ⟨own, others, rfl, tokens, same⟩ := List.map_eq_append_iff.1 same
    obtain ⟨next, others, rfl, ends⟩ := next_field fs same
    obtain ⟨value, slot, yields⟩ := reads_slot n true
      (show n.tokens.length ≤ fuel + 1 by omega)
      (by decide : ∀ t ∈ [Token.key, .value, .blockEnd], t ∈ slotEnds) m₆ (others ++ rest) ends
      tokens e as
    obtain ⟨fields, read, yieldAll⟩ :=
      reads_fields fs m (show (fieldTokens fs).length < fuel + 1 by omega) _ rest e as same
    have step : (blockFields (fuel + 2) m).run
        ⟨⟨⟨.key, m₁, m₂⟩ :: ⟨textToken key.toList, m₃, m₄⟩ :: ⟨.value, m₅, m₆⟩ ::
          (own ++ next :: (others ++ rest)), e⟩, as⟩ =
        (unlessNext [.key, .value, .blockEnd] m₆ (node (fuel + 1) true true)).run
            ⟨⟨own ++ next :: (others ++ rest), e⟩, as⟩ >>= fun p =>
          (blockFields (fuel + 1) m).run p.2 >>= fun q =>
            .ok ((.scalar (isPlain key.toList) none (reread key.toList) m₃, p.1) :: q.1, q.2) :=
      rfl
    have onward : (.ok (value, ⟨⟨next :: (others ++ rest), e⟩, as⟩) >>= fun p : Tree × Feed =>
        (blockFields (fuel + 1) m).run p.2 >>= fun q =>
          .ok ((.scalar (isPlain key.toList) none (reread key.toList) m₃, p.1) :: q.1, q.2)) =
        (blockFields (fuel + 1) m).run ⟨⟨next :: others ++ rest, e⟩, as⟩ >>= fun q =>
          .ok ((.scalar (isPlain key.toList) none (reread key.toList) m₃, value) :: q.1, q.2) :=
      rfl
    refine ⟨(_, value) :: fields, ?_, m₃, value, fields, rfl, yields, yieldAll⟩
    have parts : ⟨.key, m₁, m₂⟩ :: ⟨textToken key.toList, m₃, m₄⟩ :: Placed.mk .value m₅ m₆ ::
        (own ++ next :: others) ++ rest =
        ⟨.key, m₁, m₂⟩ :: ⟨textToken key.toList, m₃, m₄⟩ :: ⟨.value, m₅, m₆⟩ ::
          (own ++ next :: (others ++ rest)) := by simp
    rw [parts, step, slot, onward, read]
    rfl

end

end Grammar
end HostPlan.Yaml
