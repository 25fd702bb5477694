import HostPlan.Proofs.Source.Search
import HostPlan.Proofs.Source.Statement
/-!
Reading a statement that is in its normal form: the search finds its root where the statement begins,
every parenthesis is closed by the one that the statement closes it with, and what is read ends with
the statement.
-/
namespace HostPlan.Source

open Text

/-- A call whose parentheses and commas are its own. -/
structure CallText.Legible (c : CallText) : Prop where
  method : Name c.method
  types : ∀ t, c.types = some t → TypeText t
  enclosed : ∀ x ∈ c.args, Enclosed x
  uncut : ∀ x ∈ c.args, Uncut x
  filled : ∀ x ∈ c.args, trim x ≠ []

structure Statement.Legible (s : Statement) : Prop where
  boundTo : ∀ v, s.boundTo = some v → Name v
  base : Name s.base
  factory : isFactory s.root.method = true
  root : s.root.Legible
  calls : ∀ c ∈ s.calls, c.Legible

def CallText.inner (c : CallText) : List Char := [','].intercalate c.args

section Words

/-- A text that begins with a word has no blank before it. -/
theorem Name.trimStart {w : List Char} (hw : Name w) (s : List Char) :
    trimStart (w ++ s) = w ++ s := by
  obtain ⟨c, r, hc, hs⟩ := hw.cons s
  rw [hs, trimStart_cons (isBlank_of_isWord hc)]

theorem Name.binding_cons {base : List Char} (hb : Name base) (v : Option (List Char))
    (s : List Char) : ∃ c r, isWord c = true ∧ spellBinding v ++ (base ++ s) = c :: r := by
  cases v with
  | none => exact hb.cons s
  | some v => exact ⟨'v', _, by decide, rfl⟩

/-- What follows the method of a call: its types or its parenthesis. -/
theorem spellTypes_cons (types : Option (List Char)) (s : List Char) :
    ∃ d r, spellTypes types ++ '(' :: s = d :: r ∧ (d = '<' ∨ d = '(') := by
  cases types with
  | none => exact ⟨'(', s, rfl, .inr rfl⟩
  | some t => exact ⟨'<', t ++ ['>'] ++ '(' :: s, rfl, .inl rfl⟩

theorem skipTypeArguments_spell {types : Option (List Char)}
    (h : ∀ t, types = some t → TypeText t) (s : List Char) :
    skipTypeArguments (spellTypes types ++ '(' :: s) = some ('(' :: s) := by
  cases types with
  | none => rfl
  | some t =>
    have text := h t rfl
    have simple : ∀ c ∈ t, c ≠ '(' ∧ c ≠ ')' ∧ c ≠ ';' := fun c hc =>
      ⟨text.apart hc (by decide) (by decide), text.apart hc (by decide) (by decide),
        text.apart hc (by decide) (by decide)⟩
    have behind := afterTypeArguments_append text.angled simple ('>' :: '(' :: s)
    simp only [spellTypes, List.cons_append, List.append_assoc, List.nil_append, skipTypeArguments]
    rw [behind]
    rfl

end Words

namespace CallText.Legible

variable {c : CallText}

theorem enclosed_inner (h : c.Legible) : Enclosed c.inner := by
  have each := h.enclosed
  rw [inner]
  generalize c.args = args at each
  induction args with
  | nil => exact .of_blank blank_nil
  | cons x xs ih =>
    obtain ⟨head, tail⟩ := List.forall_mem_cons.1 each
    by_cases last : xs = []
    · subst last
      rw [List.intercalate_singleton]
      exact head
    · rw [List.intercalate_cons_of_ne_nil last]
      have comma : Enclosed [','] :=
        .of_flat (by decide) (List.forall_mem_singleton.2 ⟨rfl, rfl⟩)
      exact (head.append comma).append (ih tail)

theorem arguments_inner (h : c.Legible) : arguments c.inner = c.args.map trim :=
  arguments_intercalate h.uncut h.filled

theorem spell_append (c : CallText) (z : List Char) :
    c.spell [','] ++ z =
      c.method ++ (spellTypes c.types ++ '(' :: (c.inner ++ ')' :: z)) := by
  simp [spell, inner]

theorem nextCall_spell (h : c.Legible) (z : List Char) :
    nextCall ('.' :: (c.spell [','] ++ z)) = .call (.ofText c.method c.inner) z := by
  obtain ⟨d, r, hr, hd⟩ := spellTypes_cons c.types (c.inner ++ ')' :: z)
  have noWord : isWord d = false := by rcases hd with rfl | rfl <;> decide
  have noBlank : isBlank d = false := by rcases hd with rfl | rfl <;> decide
  have skipped := skipTypeArguments_spell h.types (c.inner ++ ')' :: z)
  have named : c.method.isEmpty = false := by simpa using h.method.filled
  rw [hr] at skipped
  rw [nextCall, trimStart_cons (by decide)]
  simp only [spell_append, hr, h.method.trimStart, afterWord_append_cons h.method.word noWord,
    leadingWord_append_cons h.method.word noWord, named, Bool.false_eq_true, if_false,
    trimStart_cons noBlank, skipped, h.enclosed_inner.untilClosed]

end CallText.Legible

theorem readCalls_spell {calls : List CallText} (h : ∀ c ∈ calls, c.Legible) (z : List Char) :
    readCalls (calls.flatMap (fun c => '.' :: c.spell [',']) ++ ';' :: z) =
      ⟨calls.map fun c => .ofText c.method c.inner, ';' :: z, true⟩ := by
  induction calls with
  | nil =>
    have stop : nextCall (';' :: z) = .none := by
      rw [nextCall, trimStart_cons (by decide)]
      rfl
    exact readCalls_none stop
  | cons c calls ih =>
    obtain ⟨head, tail⟩ := List.forall_mem_cons.1 h
    rw [List.flatMap_cons, List.append_assoc, List.cons_append,
      readCalls_call (head.nextCall_spell _), ih tail]
    rfl

section Roots

variable {v base method r : List Char} {d : Char}

theorem factory?_spell (boundTo : Option (List Char)) (hb : Name base) (hm : Name method)
    (factory : isFactory method = true) (hd : isWord d = false) :
    factory? boundTo (base ++ '.' :: (method ++ d :: r)) =
      some ⟨boundTo, base, method, d :: r⟩ := by
  have dot : isWord '.' = false := by decide
  have named : base.isEmpty = false := by simpa using hb.filled
  simp only [factory?, leadingWord_append_cons hb.word dot, afterWord_append_cons hb.word dot, named,
    Bool.false_eq_true, if_false, trimStart_cons (c := '.') (by decide), hm.trimStart,
    leadingWord_append_cons hm.word hd, afterWord_append_cons hm.word hd, factory, if_true]

theorem binding?_spell (hv : Name v) (hb : Name base) (s : List Char) :
    binding? (spellBinding (some v) ++ (base ++ s)) = some (v, base ++ s) := by
  have hvar : Word ['v', 'a', 'r'] := by decide
  have space : isWord ' ' = false := by decide
  have named : v.isEmpty = false := by simpa using hv.filled
  have spelled : spellBinding (some v) ++ (base ++ s) =
      ['v', 'a', 'r'] ++ ' ' :: (v ++ ' ' :: ('=' :: ' ' :: (base ++ s))) := by
    simp [spellBinding]
  have blank : isBlank ' ' = true := by decide
  rw [spelled, binding?]
  simp only [leadingWord_append_cons hvar space, afterWord_append_cons hvar space, true_or, if_true,
    hv.trimStart, leadingWord_append_cons hv.word space, afterWord_append_cons hv.word space, blank,
    named, Bool.not_true, Bool.or_self, Bool.false_eq_true, if_false, trimStart_cons_blank blank,
    trimStart_cons (c := '=') (by decide), hb.trimStart]

theorem binding?_name (hb : Name base) (s : List Char) : binding? (base ++ '.' :: s) = none := by
  have dot : isWord '.' = false := by decide
  have noBlank : isBlank '.' = false := by decide
  rw [binding?]
  simp only [afterWord_append_cons hb.word dot, noBlank, Bool.not_false, Bool.true_or, if_true]
  split <;> rfl

end Roots

namespace Statement

variable {s : Statement}

def head (s : Statement) : List Char :=
  spellBinding s.boundTo ++ (s.base ++ '.' :: s.root.method)

def tail (s : Statement) : List Char :=
  spellTypes s.root.types ++ '(' :: (s.root.inner ++ ')' ::
    (s.calls.flatMap (fun c => '.' :: c.spell [',']) ++ [';']))

theorem spell_eq (s : Statement) : s.spell [','] = s.head ++ s.tail := by
  simp [spell, head, tail, CallText.spell, CallText.inner]

def read (s : Statement) (raw : String) : Chain where
  rootMethod := String.ofList s.root.method
  name := String.ofList ((firstLiteral? s.root.inner).getD [])
  boundTo := s.boundTo.map String.ofList
  base? := some (String.ofList s.base)
  rootArgs := (arguments s.root.inner).map String.ofList
  calls := s.calls.map fun c => .ofText c.method c.inner
  raw := raw

theorem Legible.findRoot_head (h : s.Legible) {d : Char} (hd : isWord d = false) (r : List Char) :
    findRoot true (s.head ++ d :: r) =
      some (0, ⟨s.boundTo, s.base, s.root.method, d :: r⟩) := by
  have root : root? (s.head ++ d :: r) = some ⟨s.boundTo, s.base, s.root.method, d :: r⟩ := by
    have read := factory?_spell (r := r) s.boundTo h.base h.root.method h.factory hd
    cases hv : s.boundTo with
    | none =>
      rw [hv] at read
      have unbound := binding?_name h.base (s.root.method ++ d :: r)
      simp [root?, head, hv, spellBinding, unbound, read]
    | some v =>
      rw [hv] at read
      have bound := binding?_spell (h.boundTo v hv) h.base ('.' :: (s.root.method ++ d :: r))
      simp [root?, head, hv, bound, read]
  have first := h.base.binding_cons s.boundTo ('.' :: s.root.method ++ d :: r)
  rw [← List.append_assoc, ← List.append_assoc, List.append_assoc (spellBinding _)] at first
  obtain ⟨c, t, hc, ht⟩ := first
  rw [head] at root ⊢
  rw [ht] at root ⊢
  rw [findRoot, hc]
  simp [root]

theorem Legible.readChain? (h : s.Legible) (rest whole z : List Char) :
    ∃ raw, Source.readChain? ⟨s.boundTo, s.base, s.root.method, rest⟩ whole (s.tail ++ z) =
      some (s.read raw, z) := by
  obtain ⟨d, r, hr, hd⟩ := spellTypes_cons s.root.types (s.root.inner ++ ')' ::
    (s.calls.flatMap (fun c => '.' :: c.spell [',']) ++ ';' :: z))
  have skipped := skipTypeArguments_spell h.root.types (s.root.inner ++ ')' ::
    (s.calls.flatMap (fun c => '.' :: c.spell [',']) ++ ';' :: z))
  have noSpace : (d :: r).dropWhile (· == ' ') = d :: r := by
    rcases hd with rfl | rfl <;> rfl
  have text : s.tail ++ z = d :: r := by
    rw [← hr]
    simp [tail]
  rw [hr] at skipped
  refine ⟨String.ofList (whole.take (whole.length - z.length)), ?_⟩
  rw [Source.readChain?, text]
  simp only [noSpace, skipped, h.root.enclosed_inner.untilClosed, readCalls_spell h.calls,
    trimStart_cons (c := ';') (by decide), if_true]
  rfl

theorem Legible.unquoted_head (h : s.Legible) : Unquoted s.head := by
  have front : Unquoted (spellBinding s.boundTo) := by
    cases hv : s.boundTo with
    | none => exact nofun
    | some v =>
      have keyword : Unquoted ['v', 'a', 'r', ' '] := by decide
      have sign : Unquoted [' ', '=', ' '] := by decide
      exact (keyword.append (.of_word (h.boundTo v hv).word)).append sign
  have method : Unquoted ('.' :: s.root.method) := .cons rfl (.of_word h.root.method.word)
  exact front.append ((Unquoted.of_word h.base.word).append method)

/-- A search that begins with a statement reads it and goes on behind it. -/
theorem Legible.search (h : s.Legible) (closed : Place.code.after (s.spell [',']) = .code)
    (position : Nat) (z : List Char) :
    ∃ raw, Source.search position (s.spell [','] ++ z) (masked (s.spell [','] ++ z)) =
      .chain position (s.read raw) ::
        Source.search (position + (s.spell [',']).length) z (masked z) := by
  have front : Place.code.after s.head = .code := Place.after_code h.unquoted_head
  have back : Place.code.after s.tail = .code := by
    rwa [spell_eq, Place.after_append, front] at closed
  have mask : masked (s.head ++ (s.tail ++ z)) = s.head ++ (masked s.tail ++ masked z) := by
    rw [masked_append front, masked_code h.unquoted_head, masked_append back]
  obtain ⟨d, r, hr, hd⟩ := spellTypes_cons s.root.types (s.root.inner ++ ')' ::
    (s.calls.flatMap (fun c => '.' :: c.spell [',']) ++ [';']))
  have noWord : isWord d = false := by rcases hd with rfl | rfl <;> decide
  have quote : isQuote d = false := by rcases hd with rfl | rfl <;> rfl
  have begins : masked s.tail = d :: masked r := by
    rw [tail, hr, masked_cons quote]
  have found : findRoot true (s.head ++ (masked s.tail ++ masked z)) =
      some (0, ⟨s.boundTo, s.base, s.root.method, masked s.tail ++ masked z⟩) := by
    rw [begins]
    exact h.findRoot_head noWord (masked r ++ masked z)
  obtain ⟨raw, read⟩ := h.readChain? (masked s.tail ++ masked z) (s.head ++ (s.tail ++ z)) z
  refine ⟨raw, ?_⟩
  rw [spell_eq, List.append_assoc, mask]
  exact search_read rfl (length_masked s.tail).symm found rfl read

end Statement

end HostPlan.Source
