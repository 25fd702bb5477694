import HostPlan.Proofs.Source.Misleading
import HostPlan.Proofs.Source.Search
/-!
What is read from a text that ends a statement does not depend on the text behind it, as long as that
text closes no bracket that it has not opened: calls and chains are the same, a call that is not closed
stays so, and what is left is left with the other text behind it.
-/
namespace HostPlan.Source

open Text

/-- A text that ends a statement, and whose type arguments do not lead into a literal. -/
structure Ended (s : List Char) : Prop where
  last : ∃ v, s = v ++ [';'] ∧ Place.code.after v = .code
  calm : misleads false (Place.code.marks s) = false

/-- No bracket that is open before the text is closed by it. -/
def Seals (w : List Char) : Prop := ∀ e, untilClosed .code (e + 1) w = none

section Leaving

variable {s r : List Char}

theorem leaves_trimStart (s : List Char) : Leaves s (trimStart s) := by
  obtain ⟨l, hl, hs⟩ := exists_trimStart s
  exact ⟨l, hs, Place.after_code (Unquoted.of_blank hl)⟩

theorem Leaves.of_cons {c : Char} (h : isQuote c = false) (r : List Char) : Leaves (c :: r) r :=
  .of_unquoted (x := [c]) (List.forall_mem_singleton.2 h) r

theorem Leaves.calm {b : Bool} (h : Leaves s r) (calm : misleads b (Place.code.marks s) = false) :
    misleads false (Place.code.marks r) = false := by
  obtain ⟨x, rfl, hx⟩ := h
  rw [Place.marks_append, hx] at calm
  exact misleads_suffix calm

theorem Ended.ends (h : Ended s) : Ends s := by
  obtain ⟨v, hv, -⟩ := h.last
  exact ⟨v, hv⟩

theorem Ended.closed (h : Ended s) : Place.code.after s = .code := by
  obtain ⟨v, rfl, hv⟩ := h.last
  rw [Place.after_append, hv]
  rfl

theorem Ended.leaves (h : Ended s) (left : Leaves s r) (filled : r ≠ []) : Ended r := by
  refine ⟨?_, left.calm h.calm⟩
  obtain ⟨v, hv, closed⟩ := h.last
  obtain ⟨x, rfl, hx⟩ := left
  have ends : Ends r := Ends.suffix (x := x) ⟨v, hv⟩ filled
  obtain ⟨u, rfl⟩ := ends
  rw [← List.append_assoc] at hv
  rw [← List.append_inj_left' hv rfl, Place.after_append, hx] at closed
  exact ⟨u, rfl, closed⟩

/-- Behind a parenthesis the text still ends a statement. -/
theorem Ended.round (h : Ended ('(' :: s)) : Ended s :=
  h.leaves (.of_cons rfl s) (h.ends.tail (by decide)).ne_nil

theorem leaves_afterWord (filled : leadingWord s ≠ [])
    (calm : misleads false (Place.code.marks s) = false) :
    Leaves s (afterWord s) ∧ misleads true (Place.code.marks (afterWord s)) = false := by
  obtain ⟨w, c, hw⟩ : ∃ w c, leadingWord s = w ++ [c] := by
    rcases List.eq_nil_or_concat (leadingWord s) with none | ⟨w, c, hw⟩
    · exact absurd none filled
    · exact ⟨w, c, by rw [hw, List.concat_eq_append]⟩
  have word : ∀ d ∈ w ++ [c], isWord d = true := by
    rw [← hw]
    intro d hd
    exact List.all_eq_true.1 List.all_takeWhile d hd
  have plain : Unquoted (w ++ [c]) := .of_word word
  have split : s = w ++ [c] ++ afterWord s := by
    rw [← hw, leadingWord_append_afterWord]
  refine ⟨⟨w ++ [c], split, Place.after_code plain⟩, ?_⟩
  rw [split, Place.marks_append, Place.after_code plain, Place.marks_code plain, List.map_append,
    List.append_assoc] at calm
  exact misleads_word (word c (by simp)) calm

theorem Leaves.blanks {l : List Char} (hl : Blank l)
    (calm : misleads true (Place.code.marks (l ++ r)) = false) :
    misleads true (Place.code.marks r) = false := by
  have plain : Unquoted l := .of_blank hl
  rwa [Place.marks_append, Place.after_code plain, Place.marks_code plain,
    misleads_blanks hl] at calm

end Leaving

section Calls

def CallStep.before (w : List Char) : CallStep → CallStep
  | .none => .none
  | .unclosed => .unclosed
  | .call c rest => .call c (rest ++ w)

variable {s w : List Char}

theorem leaves_method {r t : List Char} (calm : misleads false (Place.code.marks s) = false)
    (dot : trimStart s = '.' :: r) (named : leadingWord (trimStart r) ≠ [])
    (skipped : skipTypeArguments (trimStart (afterWord (trimStart r))) = some ('(' :: t)) :
    Leaves s ('(' :: t) := by
  have first : Leaves s (trimStart r) := by
    have start := leaves_trimStart s
    rw [dot] at start
    exact (start.trans (.of_cons rfl r)).trans (leaves_trimStart r)
  obtain ⟨behind, calm⟩ := leaves_afterWord named (first.calm calm)
  have types : Leaves (trimStart (afterWord (trimStart r))) ('(' :: t) := by
    obtain ⟨l, hl, hs⟩ := exists_trimStart (afterWord (trimStart r))
    rw [hs] at calm
    exact leaves_skipTypeArguments (Leaves.blanks hl calm) skipped
  exact ((first.trans behind).trans (leaves_trimStart _)).trans types

theorem nextCall_dot {r : List Char} (dot : trimStart s = '.' :: r) :
    nextCall s =
      if (leadingWord (trimStart r)).isEmpty then .none
      else
        match skipTypeArguments (trimStart (afterWord (trimStart r))) with
        | some ('(' :: t) =>
          match untilClosed .code 1 t with
          | some (inner, rest) => .call (.ofText (leadingWord (trimStart r)) inner) rest
          | none => .unclosed
        | _ => .none := by
  rw [nextCall, dot]
  rfl

theorem nextCall_other (other : ∀ r, trimStart s ≠ '.' :: r) : nextCall s = .none := by
  rw [nextCall]
  split
  · rename_i dot
    exact absurd dot (other _)
  · rfl

/-- A call is a dot, a name, perhaps type arguments, and a parenthesis that closes. -/
theorem nextCall_eq_call_iff {c : MethodCall} {rest : List Char} :
    nextCall s = .call c rest ↔
      ∃ r t inner, trimStart s = '.' :: r ∧ leadingWord (trimStart r) ≠ [] ∧
        skipTypeArguments (trimStart (afterWord (trimStart r))) = some ('(' :: t) ∧
        untilClosed .code 1 t = some (inner, rest) ∧
        c = .ofText (leadingWord (trimStart r)) inner := by
  constructor
  · intro h
    by_cases dot : ∃ r, trimStart s = '.' :: r
    · obtain ⟨r, dot⟩ := dot
      rw [nextCall_dot dot] at h
      split at h
      · cases h
      · rename_i named
        split at h
        · rename_i t skipped
          split at h
          · rename_i inner rest' closes
            cases h
            exact ⟨r, t, inner, dot, by simpa using named, skipped, closes, rfl⟩
          · cases h
        · cases h
    · rw [nextCall_other fun r hr => dot ⟨r, hr⟩] at h
      cases h
  · rintro ⟨r, t, inner, dot, named, skipped, closes, rfl⟩
    have filled : (leadingWord (trimStart r)).isEmpty = false := by simpa using named
    rw [nextCall_dot dot, filled, skipped]
    simp only [Bool.false_eq_true, if_false, closes]

/-- The next call, if there is one, is read alike whatever follows. -/
theorem nextCall_append (h : Ended s) (hw : Seals w) :
    nextCall (s ++ w) = (nextCall s).before w := by
  have trimmed := h.ends.trimStart_append w
  by_cases dot : ∃ r, trimStart s = '.' :: r
  · obtain ⟨r, hr⟩ := dot
    have ends := h.ends.trimStart
    rw [hr] at trimmed ends
    rw [List.cons_append] at trimmed
    have behind := (ends.tail (by decide)).trimStart
    rw [nextCall_dot hr, nextCall_dot trimmed, (ends.tail (by decide)).trimStart_append,
      behind.leadingWord_append, behind.afterWord_append, behind.afterWord.trimStart_append,
      skipTypeArguments_of_ends behind.afterWord.trimStart]
    split
    · rfl
    · rename_i named
      cases skipped : skipTypeArguments (trimStart (afterWord (trimStart r))) with
      | none => rfl
      | some t =>
        have ends := ends_of_skipTypeArguments behind.afterWord.trimStart skipped
        cases t with
        | nil => exact absurd rfl ends.ne_nil
        | cons c t =>
          by_cases round : c = '('
          · subst round
            have left := leaves_method h.calm hr (by simpa using named) skipped
            have closed := (h.leaves left nofun).round.closed
            simp only [Option.map_some, List.cons_append]
            -- A call that `s` leaves open stays open, since what follows closes no bracket of it.
            cases inner : untilClosed .code 1 t with
            | none =>
              have open_ := untilClosed_append_of_none inner (by rw [closed]; exact hw)
              rw [open_]
              rfl
            | some found =>
              rw [untilClosed_append_of_some inner]
              rfl
          · simp [round, CallStep.before]
  · have other : ∀ r, trimStart s ≠ '.' :: r := fun r hr => dot ⟨r, hr⟩
    have other' : ∀ r, trimStart (s ++ w) ≠ '.' :: r := by
      intro r hr
      rw [trimmed] at hr
      obtain ⟨c, t, ht⟩ := List.exists_cons_of_ne_nil h.ends.trimStart.ne_nil
      rw [ht, List.cons_append] at hr
      exact other t (by rw [ht, (List.cons.inj hr).1])
    rw [nextCall_other other, nextCall_other other']
    rfl

theorem ends_untilClosed {d : Nat} {t a r : List Char} (ends : Ends t)
    (h : untilClosed .code d t = some (a, r)) : Ends r := by
  rw [eq_append_of_untilClosed h] at ends
  exact (ends.suffix (List.cons_ne_nil ')' r)).tail (by decide)

/-- There is no call, or there is one with its parenthesis, which is code. -/
theorem nextCall_cases (calm : misleads false (Place.code.marks s) = false) :
    nextCall s = .none ∨ ∃ method t, Leaves s ('(' :: t) ∧
      nextCall s =
        match untilClosed .code 1 t with
        | some (inner, rest) => .call (.ofText method inner) rest
        | none => .unclosed := by
  by_cases dot : ∃ r, trimStart s = '.' :: r
  · obtain ⟨r, hr⟩ := dot
    rw [nextCall_dot hr]
    split
    · exact .inl rfl
    · rename_i named
      split
      · rename_i t skipped
        exact .inr ⟨_, t, leaves_method calm hr (by simpa using named) skipped, rfl⟩
      · exact .inl rfl
  · exact .inl (nextCall_other fun r hr => dot ⟨r, hr⟩)

theorem leaves_nextCall {c : MethodCall} {rest : List Char}
    (calm : misleads false (Place.code.marks s) = false) (hc : nextCall s = .call c rest) :
    ∃ t inner, Leaves s ('(' :: t) ∧ untilClosed .code 1 t = some (inner, rest) := by
  rcases nextCall_cases calm with none | ⟨method, t, left, next⟩
  · rw [none] at hc
    cases hc
  · rw [next] at hc
    split at hc
    · rename_i inner rest' closes
      cases hc
      exact ⟨t, inner, left, closes⟩
    · cases hc

/-- A row of calls is read alike whatever follows, and what is left of it is code. -/
theorem readCalls_append (h : Ended s) (hw : Seals w) :
    readCalls (s ++ w) = { readCalls s with rest := (readCalls s).rest ++ w } ∧
      Leaves s (readCalls s).rest ∧ (readCalls s).rest ≠ [] := by
  induction hn : s.length using Nat.strongRecOn generalizing s with
  | ind n ih =>
    have next := nextCall_append h hw
    have here : Leaves s s ∧ s ≠ [] := ⟨⟨[], rfl, rfl⟩, h.ends.ne_nil⟩
    cases hc : nextCall s with
    | none =>
      rw [hc] at next
      rw [readCalls_none hc, readCalls_none next]
      exact ⟨rfl, here⟩
    | unclosed =>
      rw [hc] at next
      rw [readCalls_unclosed hc, readCalls_unclosed next]
      exact ⟨rfl, here⟩
    | call c rest =>
      rw [hc] at next
      obtain ⟨t, inner, open_, closes⟩ := leaves_nextCall h.calm hc
      have round := (h.leaves open_ nofun).round
      have left := (open_.trans (.of_cons rfl t)).trans (leaves_untilClosed closes)
      have filled := (ends_untilClosed round.ends closes).ne_nil
      have shorter : rest.length < n := hn ▸ length_lt_of_nextCall hc
      obtain ⟨run, leftRun, filledRun⟩ := ih rest.length shorter (h.leaves left filled) rfl
      rw [readCalls_call hc, readCalls_call next, run]
      exact ⟨rfl, left.trans leftRun, filledRun⟩

end Calls

section Chains

variable {z w : List Char} {root : Root}

/-- The text without the semicolon that it may begin with. -/
def afterStatement (s : List Char) : List Char :=
  match trimStart s with
  | ';' :: t => t
  | _ => s

theorem afterStatement_append {s : List Char} (h : Ends s) (w : List Char) :
    afterStatement (s ++ w) = afterStatement s ++ w := by
  rw [afterStatement, afterStatement, h.trimStart_append]
  obtain ⟨c, t, ht⟩ := List.exists_cons_of_ne_nil h.trimStart.ne_nil
  rw [ht, List.cons_append]
  by_cases stop : c = ';'
  · subst stop
    rfl
  · simp [stop]

theorem leaves_afterStatement (s : List Char) : Leaves s (afterStatement s) := by
  rw [afterStatement]
  split
  · rename_i t ht
    have left := leaves_trimStart s
    rw [ht] at left
    exact left.trans (.of_cons rfl t)
  · exact ⟨[], rfl, rfl⟩

/-- The chain with this text between its parentheses and this text behind them. -/
def chainOf (root : Root) (whole inner behind : List Char) : Option (Chain × List Char) :=
  let run := readCalls behind
  let rest := afterStatement run.rest
  if run.closed then
    some ({
      rootMethod := String.ofList root.method
      name := String.ofList ((firstLiteral? inner).getD [])
      boundTo := root.boundTo.map String.ofList
      base? := some (String.ofList root.base)
      rootArgs := (arguments inner).map String.ofList
      calls := run.calls
      raw := String.ofList (whole.take (whole.length - rest.length)) }, rest)
  else none

/-- A root is read with its parenthesis, when it has one. -/
theorem readChain?_eq (whole : List Char) :
    readChain? root whole z =
      match skipTypeArguments (z.dropWhile (· == ' ')) with
      | some ('(' :: s) =>
        (untilClosed .code 1 s).bind fun (inner, r) => chainOf root whole inner r
      | _ => none := by
  rw [readChain?]
  cases skipTypeArguments (z.dropWhile (· == ' ')) with
  | none => rfl
  | some t =>
    cases t with
    | nil => rfl
    | cons c s =>
      by_cases round : c = '('
      · subst round
        cases h : untilClosed .code 1 s with
        | none => simp only [h, Option.bind_none]
        | some found =>
          simp only [h, Option.bind_some]
          rfl
      · simp [round]

theorem chainOf_append {inner behind whole : List Char} (h : Ended behind) (hw : Seals w)
    (m : List Char) :
    chainOf { root with rest := m } (whole ++ w) inner (behind ++ w) =
      (chainOf root whole inner behind).map fun (c, r) => (c, r ++ w) := by
  obtain ⟨run, left, filled⟩ := readCalls_append h hw
  have rest := afterStatement_append (h.leaves left filled).ends w
  have raw (r : List Char) : (whole ++ w).take ((whole ++ w).length - (r ++ w).length) =
      whole.take (whole.length - r.length) := by
    rw [List.length_append, List.length_append, Nat.add_sub_add_right,
      List.take_append_of_le_length (Nat.sub_le ..)]
  rw [chainOf, chainOf, run]
  simp only [rest, raw]
  split <;> rfl

theorem leaves_chainOf {inner behind whole rest : List Char} {c : Chain} (h : Ended behind)
    (hc : chainOf root whole inner behind = some (c, rest)) : Leaves behind rest := by
  obtain ⟨-, left, -⟩ := readCalls_append (w := []) h fun e => rfl
  rw [chainOf] at hc
  split at hc
  · cases hc
    exact left.trans (leaves_afterStatement _)
  · cases hc

/-- The parenthesis of a root whose name ends where the text begins. -/
theorem leaves_root {s : List Char} (calm : misleads true (Place.code.marks z) = false)
    (round : skipTypeArguments (z.dropWhile (· == ' ')) = some ('(' :: s)) :
    Leaves z ('(' :: s) := by
  have split : z = z.takeWhile (· == ' ') ++ z.dropWhile (· == ' ') :=
    List.takeWhile_append_dropWhile.symm
  have first : Leaves z (z.dropWhile (· == ' ')) :=
    ⟨_, split, Place.after_code (Unquoted.of_blank (blank_spaces z))⟩
  rw [split] at calm
  exact first.trans (leaves_skipTypeArguments (Leaves.blanks (blank_spaces z) calm) round)

/-- A chain is read alike whatever follows the statement. -/
theorem readChain?_append (h : Ended z) (calm : misleads true (Place.code.marks z) = false)
    (hw : Seals w) (whole m : List Char) :
    readChain? { root with rest := m } (whole ++ w) (z ++ w) =
      (readChain? root whole z).map fun (c, r) => (c, r ++ w) := by
  obtain ⟨dropped, ends⟩ := h.ends.dropWhile_append (p := (· == ' ')) (by decide) w
  rw [readChain?_eq, readChain?_eq, dropped, skipTypeArguments_of_ends ends]
  cases skipped : skipTypeArguments (z.dropWhile (· == ' ')) with
  | none => rfl
  | some t =>
    cases t with
    | nil => exact absurd rfl (ends_of_skipTypeArguments ends skipped).ne_nil
    | cons c s =>
      by_cases round : c = '('
      · subst round
        have behind := (h.leaves (leaves_root calm skipped) nofun).round
        simp only [Option.map_some, List.cons_append]
        cases inner : untilClosed .code 1 s with
        | none =>
          rw [untilClosed_append_of_none inner (by rw [behind.closed]; exact hw)]
          rfl
        | some found =>
          obtain ⟨inner', r⟩ := found
          rw [untilClosed_append_of_some inner]
          exact chainOf_append
            (behind.leaves (leaves_untilClosed inner) (ends_untilClosed behind.ends inner).ne_nil) hw m
      · simp [round]

theorem leaves_readChain? {whole rest : List Char} {c : Chain} (h : Ended z)
    (calm : misleads true (Place.code.marks z) = false)
    (hc : readChain? root whole z = some (c, rest)) : Leaves z rest := by
  rw [readChain?_eq] at hc
  split at hc
  · rename_i s round
    have left := leaves_root calm round
    have behind := (h.leaves left nofun).round
    obtain ⟨⟨inner, r⟩, closes, hc⟩ := Option.bind_eq_some_iff.1 hc
    have leftInner := leaves_untilClosed closes
    have more := behind.leaves leftInner (ends_untilClosed behind.ends closes).ne_nil
    exact ((left.trans (.of_cons rfl s)).trans leftInner).trans (leaves_chainOf more hc)
  · cases hc

end Chains

end HostPlan.Source
