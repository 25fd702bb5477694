import HostPlan.Proofs.Source.Root
import HostPlan.Proofs.Source.Sequence
import Mathlib.Data.List.Infix
/-!
Texts one after the other. When the first text ends with a statement, the chains of both together are
those of the first and then those of the second: no broken call of the first one takes up a chain of
the second. What is quoted of a broken chain may go on into the second text.
-/
namespace HostPlan.Source

open Text

/-- What was found, quoted with more text behind it. -/
def Found.before (w : List Char) : Found → Found
  | .chain position c => .chain position c
  | .unclosed position snippet =>
    .unclosed position (String.ofList ((snippet.toList ++ w).take snippetLength))

section Searching

variable {u w : List Char}

theorem Ended.masked (h : Ended u) : Ends (masked u) := by
  obtain ⟨v, rfl, hv⟩ := h.last
  exact ⟨Source.masked v, by rw [masked_append hv]; rfl⟩

theorem take_snippet (s w : List Char) :
    String.ofList ((s ++ w).take snippetLength) =
      String.ofList (((String.ofList (s.take snippetLength)).toList ++ w).take snippetLength) := by
  rw [String.toList_ofList]
  congr 1
  by_cases short : s.length ≤ snippetLength
  · rw [List.take_of_length_le short]
  · have long : snippetLength ≤ s.length := by omega
    have full : (s.take snippetLength).length = snippetLength := by
      rw [List.length_take]
      omega
    rw [List.take_append_of_le_length long, List.take_left' full]

/-- A search through a text that ends a statement comes upon the same whatever follows, and goes on
behind it. -/
theorem search_append (h : u = [] ∨ Ended u) (hw : Seals w) (position : Nat) :
    search position (u ++ w) (masked u ++ masked w) =
      (search position u (masked u)).map (Found.before w) ++
        search (position + u.length) w (masked w) := by
  -- Behind a root, and behind a chain, a shorter text is left that ends a statement too.
  induction hn : u.length using Nat.strongRecOn generalizing u position with
  | ind k ih =>
    rcases h with rfl | h
    · have none : search position [] (masked []) = [] := search_none rfl
      rw [none, ← hn]
      rfl
    have further := @findRoot_append _ true h.masked (masked w)
    cases found : findRoot true (masked u) with
    | none =>
      rw [found] at further
      rw [search_none found, search_skip position (length_masked u).symm further, length_masked, hn]
      rfl
    | some root =>
      obtain ⟨n, root⟩ := root
      have further : findRoot true (masked u ++ masked w) =
          some (n, root.before (masked w)) := by
        rw [further, found]
        rfl
      obtain ⟨y, z, rfl, closed, hz, filled, calm⟩ := root_place h found
      have fits : n + z.length < y.length + z.length := by
        have inside := findRoot_rest found
        rwa [length_masked, ← hz, length_masked, List.length_append] at inside
      have ended : Ended z := h.leaves ⟨y, rfl, closed⟩ filled
      have length := (length_masked y).symm
      have total : (y ++ z).length = y.length + z.length := List.length_append
      have behind : root.rest.length = (masked z).length := by rw [hz]
      have behind' : (root.before (masked w)).rest.length = (masked z ++ masked w).length := by
        rw [Root.before, List.length_append, List.length_append, behind]
      have atRoot : (y ++ (z ++ w)).drop n = (y ++ z).drop n ++ w := by
        rw [← List.append_assoc, List.drop_append_of_le_length (by omega)]
      have read := @readChain?_append z w root ended calm hw ((y ++ z).drop n) (root.rest ++ masked w)
      rw [masked_append closed] at found further ⊢
      rw [List.append_assoc] at further ⊢
      cases hc : readChain? root ((y ++ z).drop n) z with
      | none =>
        have there : readChain? (root.before (masked w)) ((y ++ (z ++ w)).drop n) (z ++ w) = none := by
          rw [hc] at read
          rw [atRoot]
          exact read
        have rest := ih z.length (by omega) (.inr ended) (position + y.length) rfl
        rw [search_broken length found behind hc, List.append_assoc,
          search_broken length further behind' there, atRoot, rest, take_snippet, ← hn, total,
          Nat.add_assoc]
        rfl
      | some pair =>
        obtain ⟨c, rest⟩ := pair
        obtain ⟨x, rfl, hx⟩ := leaves_readChain? ended calm hc
        have there : readChain? (root.before (masked w)) ((y ++ (x ++ rest ++ w)).drop n)
            (x ++ rest ++ w) = some (c, rest ++ w) := by
          rw [hc] at read
          rw [atRoot]
          exact read
        have next : rest = [] ∨ Ended rest := by
          by_cases none : rest = []
          · exact .inl none
          · exact .inr (ended.leaves ⟨x, rfl, hx⟩ none)
        have shorter : rest.length < k := by
          rw [← hn]
          simp only [List.length_append] at fits total ⊢
          omega
        have onwards := ih rest.length shorter next (position + (y ++ x).length) rfl
        have whole : position + (y ++ x).length + rest.length = position + k := by
          rw [← hn]
          simp only [List.length_append]
          omega
        rw [masked_append hx] at found further behind behind' ⊢
        rw [List.append_assoc] at further there behind' ⊢
        rw [search_read length (length_masked x).symm found behind hc, List.append_assoc, List.append_assoc,
          search_read length (length_masked x).symm further behind' there, onwards, whole]
        rfl

theorem seals_of_above (above : Above 0 (Place.code.marks w)) : Seals w :=
  fun e => untilClosed_eq_none (above.mono (by omega))

end Searching

section Positions

/-- What was found, with more text before it. -/
def Found.behind (k : Nat) : Found → Found
  | .chain position c => .chain (k + position) c
  | .unclosed position snippet => .unclosed (k + position) snippet

/-- A search comes upon the same wherever it begins. -/
theorem search_behind (k position : Nat) (text mask : List Char) :
    search (k + position) text mask = (search position text mask).map (Found.behind k) := by
  induction hn : mask.length using Nat.strongRecOn generalizing position text mask with
  | ind n ih =>
    cases found : findRoot true mask with
    | none =>
      rw [search_none found, search_none found]
      rfl
    | some root =>
      obtain ⟨m, root⟩ := root
      have fits := findRoot_rest found
      cases hc : readChain? root (text.drop m) (text.drop (mask.length - root.rest.length)) with
      | none =>
        have rest := ih _ (by rw [← hn, List.length_drop]; omega)
          (position + (mask.length - root.rest.length))
          (text.drop (mask.length - root.rest.length)) (mask.drop (mask.length - root.rest.length)) rfl
        rw [search_unclosed found rfl hc, search_unclosed found rfl hc, Nat.add_assoc, Nat.add_assoc,
          rest]
        rfl
      | some pair =>
        obtain ⟨c, rest⟩ := pair
        obtain ⟨taken, ht⟩ : ∃ taken,
            taken = max (mask.length - root.rest.length) (text.length - rest.length) := ⟨_, rfl⟩
        have more := ih _ (by rw [← hn, List.length_drop]; omega) (position + taken) (text.drop taken)
          (mask.drop taken) rfl
        rw [search_chain found hc ht, search_chain found hc ht, Nat.add_assoc, Nat.add_assoc, more]
        rfl

end Positions

section Programs

variable {s t : List Char}

def Found.chain? : Found → Option Chain
  | .chain _ c => some c
  | .unclosed _ _ => none

def Found.snippet? : Found → Option String
  | .chain _ _ => none
  | .unclosed _ snippet => some snippet

theorem chains_eq (s : List Char) : chains s = (searchSource s).filterMap Found.chain? := rfl

theorem brokenChains_eq (s : List Char) :
    brokenChains s = (searchSource s).filterMap Found.snippet? := rfl

/-- What a search comes upon in a text that ends with a statement, and then in a text that closes no
more brackets than it opens. -/
theorem searchSource_append (h : EndsStatement s) (unmarked : t.head? ≠ some '\uFEFF')
    (above : ∀ p, p <+: t → 0 ≤ depth (Mode.code.marks p)) :
    ∃ l, Blank l ∧ searchSource (s ++ '\n' :: t) =
      (searchSource s).map (Found.before (l ++ normalize t)) ++
        (searchSource t).map (Found.behind ((normalize s).length + l.length)) := by
  obtain ⟨l, hl, normal⟩ := h.normalize_append unmarked
  refine ⟨l, hl, ?_⟩
  have blanks : Unquoted l := .of_blank hl
  have mask : mask (normalize (s ++ '\n' :: t)) =
      masked (normalize s) ++ masked (l ++ normalize t) := by
    rw [mask_eq (uncommented_normalize _), normal, masked_append h.ended.closed]
  have behind : masked (l ++ normalize t) = l ++ masked (normalize t) := by
    rw [masked_append (Place.after_code blanks), masked_code blanks]
  have first := search_append (.inr h.ended) (seals_of_above (above_normalize unmarked hl above)) 0
  have skip := search_skip (x := l) (v := normalize t) (0 + (normalize s).length) rfl
    (findRoot_blank hl (masked (normalize t)))
  have second := search_behind ((normalize s).length + l.length) 0 (normalize t)
    (masked (normalize t))
  rw [searchSource, searchSource, searchSource, mask, normal, first,
    mask_eq (uncommented_normalize s), mask_eq (uncommented_normalize t), behind, skip, ← second,
    Nat.zero_add, Nat.add_zero]

/-- The chains of a text that ends with a statement, and of another one on the lines behind it, are
the chains of the one and then those of the other, whatever brackets the first one leaves open; and
so are their broken chains, but for what is quoted of them beyond the end of the first text. -/
theorem chains_append (h : EndsStatement s) (unmarked : t.head? ≠ some '\uFEFF')
    (above : ∀ p, p <+: t → 0 ≤ depth (Mode.code.marks p)) :
    chains (s ++ '\n' :: t) = chains s ++ chains t ∧
      ∃ l, Blank l ∧ brokenChains (s ++ '\n' :: t) =
        (brokenChains s).map (fun quoted =>
          String.ofList ((quoted.toList ++ (l ++ normalize t)).take snippetLength)) ++
        brokenChains t := by
  obtain ⟨l, hl, searched⟩ := searchSource_append h unmarked above
  simp only [chains_eq, brokenChains_eq, searched, List.filterMap_append, List.filterMap_map]
  have chainBefore (w : List Char) : Found.chain? ∘ Found.before w = Found.chain? := by
    funext f
    cases f <;> rfl
  have chainBehind (k : Nat) : Found.chain? ∘ Found.behind k = Found.chain? := by
    funext f
    cases f <;> rfl
  have snippetBehind (k : Nat) : Found.snippet? ∘ Found.behind k = Found.snippet? := by
    funext f
    cases f <;> rfl
  have snippetBefore (w : List Char) : Found.snippet? ∘ Found.before w = fun f =>
      f.snippet?.map fun quoted => String.ofList ((quoted.toList ++ w).take snippetLength) := by
    funext f
    cases f <;> rfl
  rw [chainBefore, chainBehind]
  refine ⟨rfl, l, hl, ?_⟩
  rw [snippetBehind, snippetBefore, List.map_filterMap]

/-- `var a = builder.AddRedis("a").WithHostPort(6379;` is broken, and the next line is read. -/
theorem chains_append_broken :
    EndsStatement "var a = builder.AddRedis(\"a\").WithHostPort(6379;".toList ∧
      chains ("var a = builder.AddRedis(\"a\").WithHostPort(6379;".toList ++
        '\n' :: "var b = builder.AddSeq(\"b\");".toList) =
      chains "var a = builder.AddRedis(\"a\").WithHostPort(6379;".toList ++
        chains "var b = builder.AddSeq(\"b\");".toList := by
  have broken : EndsStatement "var a = builder.AddRedis(\"a\").WithHostPort(6379;".toList :=
    ⟨by decide +kernel, by decide +kernel, by decide +kernel⟩
  have unmarked : "var b = builder.AddSeq(\"b\");".toList.head? ≠ some '\uFEFF' := by decide +kernel
  have above : ∀ p ∈ "var b = builder.AddSeq(\"b\");".toList.inits,
      0 ≤ depth (Mode.code.marks p) := by decide +kernel
  exact ⟨broken, (chains_append broken unmarked fun p hp => above p ((List.mem_inits _ _).2 hp)).1⟩

end Programs

end HostPlan.Source
