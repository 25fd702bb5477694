import HostPlan.Proofs.Source.Extraction
/-!
Balanced texts. When every literal of a text closes and its brackets nest, a reader that starts at a
parenthesis in the code comes to the one that closes it. Then a head is given up for one reason only:
no call stands behind it, as where a program reads a property whose name begins like that of a factory
method. Such a head counts as a broken chain nevertheless.
-/
namespace HostPlan.Source

open Text

/-- The second bracket closes the first. -/
def closes (o c : Char) : Bool :=
  (o == '(' && c == ')') || (o == '[' && c == ']') || (o == '{' && c == '}')

/-- The brackets left open when this one closes the innermost of them. -/
def close? (c : Char) : List Char → Option (List Char)
  | [] => none
  | o :: rest => if closes o c then some rest else none

/-- The open brackets behind a mark, the innermost one first. There are none when it closes a bracket
of another kind, or one that was never opened. -/
def Mark.open? (stack : List Char) : Mark → Option (List Char)
  | .code c =>
    if isOpener c then some (c :: stack) else if isCloser c then close? c stack else some stack
  | .opening _ => some stack
  | .inside _ => some stack

/-- The brackets of the code close themselves and those that are open before it. -/
def Nests (stack : List Char) (ms : List Mark) : Prop := ms.foldlM Mark.open? stack = some []

instance (stack : List Char) : DecidablePred (Nests stack) := fun ms =>
  inferInstanceAs (Decidable (ms.foldlM Mark.open? stack = some []))

/-- The texts whose literals and brackets close, comments left out. -/
structure Balanced (s : List Char) : Prop where
  closed : (Mode.code.after s).place = .code
  nested : Nests [] (Mode.code.marks s)

instance : DecidablePred Balanced := fun s =>
  decidable_of_iff ((Mode.code.after s).place = .code ∧ Nests [] (Mode.code.marks s))
    ⟨fun h => ⟨h.1, h.2⟩, fun h => ⟨h.closed, h.nested⟩⟩

/-- The text begins with the call of what stands before it: spaces, type arguments, a parenthesis. -/
def Called (s : List Char) : Prop :=
  ∃ a t u, s = a ++ (t ++ '(' :: u) ∧ (∀ c ∈ a, c = ' ') ∧ Types t

section Nesting

variable {stack : List Char} {m : Mark} {ms ns : List Mark}

theorem nests_cons : Nests stack (m :: ms) ↔ ∃ rest, m.open? stack = some rest ∧ Nests rest ms := by
  rw [Nests, List.foldlM_cons]
  exact Option.bind_eq_some_iff

theorem Nests.suffix (h : Nests stack (ms ++ ns)) : ∃ rest, Nests rest ns := by
  rw [Nests, List.foldlM_append] at h
  obtain ⟨rest, -, hrest⟩ := Option.bind_eq_some_iff.1 h
  exact ⟨rest, hrest⟩

/-- A mark opens a bracket, closes the innermost one or leaves them as they are. -/
theorem open?_cases {rest : List Char} (h : m.open? stack = some rest) :
    (∃ o, rest = o :: stack ∧ m.weight = 1) ∨
    (∃ o c, m = .code c ∧ stack = o :: rest ∧ closes o c = true ∧ isCloser c = true ∧
      m.weight = -1) ∨
    (rest = stack ∧ m.weight = 0) := by
  cases m with
  | opening c => exact .inr (.inr ⟨(Option.some.inj h).symm, rfl⟩)
  | inside c => exact .inr (.inr ⟨(Option.some.inj h).symm, rfl⟩)
  | code c =>
    rw [Mark.open?] at h
    split at h
    · rename_i opens
      exact .inl ⟨c, (Option.some.inj h).symm, by simp [Mark.weight, opens]⟩
    · rename_i opens
      split at h
      · rename_i shuts
        cases stack with
        | nil => cases h
        | cons o stack =>
          rw [close?] at h
          split at h
          · rename_i fits
            cases h
            exact .inr (.inl ⟨o, c, rfl, rfl, fits, shuts, by simp [Mark.weight, opens, shuts]⟩)
          · cases h
      · rename_i shuts
        exact .inr (.inr ⟨(Option.some.inj h).symm, by simp [Mark.weight, opens, shuts]⟩)

/-- What is no bracket makes no difference. -/
theorem nests_skip (h : m.open? stack = some stack) : Nests stack (m :: ms) ↔ Nests stack ms := by
  rw [nests_cons, h]
  simp

theorem open?_flat {c : Char} (stack : List Char) (h : isOpener c = false ∧ isCloser c = false) :
    (Mark.code c).open? stack = some stack := by
  rw [Mark.open?, h.1, h.2]
  rfl

theorem nests_outer (stack : List Char) (ms : List Mark) : Nests stack (outer ms) ↔ Nests stack ms := by
  induction ms generalizing stack with
  | nil => exact Iff.rfl
  | cons m ms ih =>
    have kept : Nests stack (m :: outer ms) ↔ Nests stack (m :: ms) := by
      simp only [nests_cons, ih]
    cases m with
    | opening c => exact kept
    | inside c => exact (ih stack).trans (nests_skip rfl).symm
    | code c =>
      cases hc : isBlank c with
      | false => rwa [outer_cons_code hc]
      | true =>
        rw [outer_cons_blank hc, ih, nests_skip (open?_flat stack (not_bracket_of_isBlank hc))]

/-- Where brackets nest, a parenthesis is closed that was opened before the text and before the
brackets that are left open inside of it. -/
theorem exists_untilClosed {p : Place} {s inner outer : List Char}
    (h : Nests (inner ++ '(' :: outer) (p.marks s)) :
    ∃ a r, untilClosed p (inner.length + 1) s = some (a, r) := by
  induction s generalizing p inner with
  | nil =>
    rw [Place.marks, Nests, List.foldlM_nil] at h
    simpa using Option.some.inj h
  | cons c s ih =>
    have onwards (inner' : List Char)
        (left : (inner'.length : Int) + 1 = inner.length + 1 + (p.mark c).weight)
        (rest : Nests (inner' ++ '(' :: outer) ((p.next c).marks s)) :
        ∃ a r, untilClosed p (inner.length + 1) (c :: s) = some (a, r) := by
      obtain ⟨a, r, read⟩ := ih rest
      exact ⟨c :: a, r, by rw [untilClosed_cons left, read]; rfl⟩
    rw [Place.marks] at h
    obtain ⟨rest, opened, nested⟩ := nests_cons.1 h
    rcases open?_cases opened with ⟨o, rfl, weight⟩ | ⟨o, d, mark, stack, fits, shuts, weight⟩ |
      ⟨rfl, weight⟩
    · exact onwards (o :: inner) (by rw [weight, List.length_cons]; omega) nested
    · cases inner with
      | cons o' inner =>
        obtain ⟨-, rfl⟩ := List.cons.inj stack
        exact onwards inner (by rw [weight, List.length_cons]; omega) nested
      | nil =>
        -- The bracket closes the parenthesis, so it is one itself.
        obtain ⟨rfl, -⟩ := List.cons.inj stack
        have code : p = .code := by
          cases p with
          | code => rfl
          | literal q => cases mark
          | escape q => cases mark
        have same : c = d := by
          have shown := p.char_mark c
          rw [mark] at shown
          exact shown.symm
        subst code same
        have round : c = ')' := by simpa [closes] using fits
        refine ⟨[], s, ?_⟩
        rw [List.length_nil, untilClosed, if_pos ⟨rfl, shuts⟩, if_pos (Nat.le_refl 1),
          if_pos ⟨rfl, round⟩]
    · exact onwards inner (by rw [weight]; omega) nested

end Nesting

section Reading

variable {s z r t : List Char}

/-- A text whose brackets nest with those that are open before it, and whose type arguments do not
lead into a literal. -/
structure Tame (s : List Char) : Prop where
  nested : ∃ stack, Nests stack (Place.code.marks s)
  calm : misleads false (Place.code.marks s) = false

theorem nests_of_leaves (left : Leaves s r) (h : ∃ stack, Nests stack (Place.code.marks s)) :
    ∃ stack, Nests stack (Place.code.marks r) := by
  obtain ⟨x, rfl, hx⟩ := left
  obtain ⟨stack, hs⟩ := h
  rw [Place.marks_append, hx] at hs
  exact hs.suffix

theorem Tame.leaves (h : Tame s) (left : Leaves s r) : Tame r :=
  ⟨nests_of_leaves left h.nested, left.calm h.calm⟩

theorem Tame.closes (h : Tame ('(' :: t)) :
    ∃ inner r, untilClosed .code 1 t = some (inner, r) ∧ Tame r := by
  obtain ⟨stack, nested⟩ := h.nested
  obtain ⟨rest, opened, nested⟩ := nests_cons.1 nested
  obtain rfl : '(' :: stack = rest := Option.some.inj opened
  obtain ⟨inner, r, read⟩ := @exists_untilClosed .code t [] stack nested
  exact ⟨inner, r, read, h.leaves ((Leaves.of_cons rfl t).trans (leaves_untilClosed read))⟩

/-- In such a text every call is closed. -/
theorem Tame.closed_readCalls (h : Tame s) : (readCalls s).closed = true := by
  induction hn : s.length using Nat.strongRecOn generalizing s with
  | ind n ih =>
    rcases nextCall_cases h.calm with none | ⟨method, t, left, next⟩
    · rw [readCalls_none none]
    · obtain ⟨inner, r, read, tame⟩ := (h.leaves left).closes
      rw [read] at next
      rw [readCalls_call next]
      exact ih r.length (hn ▸ length_lt_of_nextCall next) tame rfl

theorem Called.skips (h : Called z) :
    ∃ u, skipTypeArguments (z.dropWhile (· == ' ')) = some ('(' :: u) := by
  obtain ⟨a, t, u, rfl, spaces, types⟩ := h
  have dropped (l : List Char) (hl : ∀ c ∈ l, c = ' ') (s : List Char) :
      (l ++ s).dropWhile (· == ' ') = s.dropWhile (· == ' ') :=
    List.dropWhile_append_of_pos fun c hc => by simp [hl c hc]
  refine ⟨u, ?_⟩
  rw [dropped a spaces]
  cases types with
  | none => rfl
  | @some t l angled simple spaces' =>
    have text : ('<' :: (t ++ '>' :: l) ++ '(' :: u).dropWhile (· == ' ') =
        '<' :: (t ++ '>' :: (l ++ '(' :: u)) := by
      rw [List.cons_append, List.append_assoc]
      rfl
    have last : afterTypeArguments 1 ('>' :: (l ++ '(' :: u)) = some ('(' :: u) := by
      rw [afterTypeArguments, if_neg (by decide), if_pos rfl, if_pos (Nat.le_refl 1),
        dropped l spaces']
      rfl
    rw [text, skipTypeArguments, ← last]
    exact afterTypeArguments_append angled simple _

/-- Behind a word, a call is read to its end with the calls that follow it. -/
theorem readChain?_of_called (nested : ∃ stack, Nests stack (Place.code.marks z))
    (calm : misleads true (Place.code.marks z) = false) (called : Called z) (root : Root)
    (whole : List Char) : readChain? root whole z ≠ none := by
  obtain ⟨u, skipped⟩ := called.skips
  have tame : Tame ('(' :: u) :=
    Tame.leaves ⟨nested, misleads_mono calm⟩ (leaves_root calm skipped)
  obtain ⟨inner, r, read, behind⟩ := tame.closes
  rw [readChain?_eq, skipped]
  simp [read, chainOf, behind.closed_readCalls]

end Reading

section Programs

variable {s : List Char}

theorem Balanced.nests_normalize (h : Balanced s) : Nests [] (Place.code.marks (normalize s)) := by
  have skips (ms : List Mark) : Nests [] (.code '\uFEFF' :: ms) = Nests [] ms :=
    propext (nests_skip (open?_flat [] (by decide)))
  rw [← nests_outer, outer_normalize, nests_outer, (unmarked skips s).2]
  exact h.nested

/-- The text behind a head that is given up is code. -/
theorem GivenUp.leaves {text : List Char} {quoted : String} {span : Span}
    (h : GivenUp text quoted span) (clean : Uncommented .code text) :
    Leaves text (text.drop span.stop) := by
  obtain ⟨v, base, method, head⟩ := h.head
  have filled := h.filled
  have front : text = text.take span.start ++ text.drop span.start :=
    (List.take_append_drop _ _).symm
  have closed : Place.code.after (text.take span.start) = .code := by
    rw [front] at clean
    exact clean.append.1.standsAt.isPlain_iff.1 (h.stands.outside span.start (Nat.le_refl _) filled).plain
  refine ⟨text.take span.stop, (List.take_append_drop _ _).symm, ?_⟩
  have whole : text.take span.stop = text.take span.start ++ span.part text := by
    rw [Span.part, ← List.take_add, Nat.add_sub_cancel' (Nat.le_of_lt filled)]
  rw [whole, Place.after_append, closed, Place.after_code head.unquoted]

theorem Sweep.unread {text : List Char} {p : Nat} {found : List Found} (h : Sweep text p found) :
    ∀ quoted ∈ found.filterMap Found.snippet?,
      ∃ span, GivenUp text quoted span ∧ Unread text span := by
  induction h with
  | done p => exact nofun
  | chain later spells rest ih => exact ih
  | @unclosed p quoted span found later givenUp unread rest ih =>
    exact List.forall_mem_cons.2 ⟨⟨span, givenUp, unread⟩, ih⟩

/-- In a balanced text a broken chain is a head that no call follows, unless angle brackets behind it
lead into a literal. -/
theorem broken_uncalled (h : Balanced s) :
    ∀ quoted ∈ brokenChains s, ∃ span, GivenUp (normalize s) quoted span ∧
      (¬ Called ((normalize s).drop span.stop) ∨
        misleads true (Place.code.marks ((normalize s).drop span.stop)) = true) := by
  intro quoted hquoted
  obtain ⟨span, givenUp, root, unread⟩ := (sweep_searchSource s).unread quoted hquoted
  refine ⟨span, givenUp, ?_⟩
  cases calm : misleads true (Place.code.marks ((normalize s).drop span.stop)) with
  | true => exact .inr rfl
  | false =>
    refine .inl fun called => ?_
    have nested := nests_of_leaves (givenUp.leaves (uncommented_normalize s)) ⟨[], h.nests_normalize⟩
    exact readChain?_of_called nested calm called root _ unread

/-- A chain, and a property whose name begins like that of a factory method. -/
def addressed : List Char :=
  "builder.AddRedis(\"c)\").WithArgs([(1), f{2}]); // :)\nvar family = endpoint.AddressFamily;".toList

theorem addressed_broken_uncalled :
    Balanced addressed ∧ ∃ quoted ∈ brokenChains addressed, ∃ span,
      GivenUp (normalize addressed) quoted span ∧
        (¬ Called ((normalize addressed).drop span.stop) ∨
          misleads true (Place.code.marks ((normalize addressed).drop span.stop)) = true) := by
  have balanced : Balanced addressed := by decide +kernel
  have member : "var family = endpoint.AddressFamily;" ∈ brokenChains addressed := by decide +kernel
  exact ⟨balanced, _, member, broken_uncalled balanced _ member⟩

/-- `var family = endpoint.AddressFamily;` counts as a broken chain, although its brackets nest. -/
theorem property_counts_as_broken :
    Balanced "var family = endpoint.AddressFamily;".toList ∧
      brokenChains "var family = endpoint.AddressFamily;".toList =
        ["var family = endpoint.AddressFamily;"] :=
  ⟨by decide +kernel, by decide +kernel⟩

end Programs

end HostPlan.Source
