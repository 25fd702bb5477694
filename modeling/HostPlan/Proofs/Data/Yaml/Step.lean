import HostPlan.Proofs.Data.Yaml.Lexer
import HostPlan.Proofs.Data.Yaml.Spelling
/-!
What one token does to the lexer: the dash of an item, the sign and the colon of a key, a scalar and
empty brackets.
-/
namespace HostPlan.Yaml

section First

variable {s r : List Char} {t : Token} {flat : Bool}

theorem isPrefixOf_append {a : Char} (next : Avoids (· == a) r) (n : Nat) :
    (List.replicate n a).isPrefixOf (s ++ r) = (List.replicate n a).isPrefixOf s := by
  induction s generalizing n with
  | nil =>
    cases n with
    | zero => rfl
    | succ n =>
      cases r with
      | nil => rfl
      | cons c r =>
        have other : c ≠ a := by simpa using next
        simp [List.replicate_succ, List.isPrefixOf, Ne.symm other]
  | cons c s ih =>
    cases n with
    | zero => rfl
    | succ n => simp only [List.replicate_succ, List.cons_append, List.isPrefixOf, ih]

/-- No sign begins with the first character of a scalar without quotes. -/
structure StartsWord (c : Char) (r : List Char) : Prop where
  other : ∀ d ∈ indicators, c ≠ d
  solid : isSpaceOrEnd c = false
  sign : c = '-' ∨ c = '?' ∨ c = ':' → isSpaceOrEnd (r.headD '\x00') = false

theorem Bare.startsWord (bare : Bare s) : ∃ c w, s = c :: w ∧ ∀ r, StartsWord c (w ++ r) := by
  obtain ⟨c, w, rfl, visible, space, -⟩ := bare.exists_cons
  have indicator := bare.indicator
  simp only [startsIndicator, Bool.or_eq_false_iff, Bool.and_eq_false_imp] at indicator
  obtain ⟨-, plain, sign⟩ := indicator
  have other : c ∉ indicators := by simpa using plain
  refine ⟨c, w, rfl, fun r => ⟨fun d mem same => other (same ▸ mem), ?_, fun isSign => ?_⟩⟩
  · rw [isSpaceOrEnd_of_isVisible visible]
    simpa using space
  · have word : isGap w.head? = false := sign (by rcases isSign with h | h | h <;> simp [h])
    cases w with
    | nil => cases word
    | cons d w =>
      have visible : isVisible d = true := bare.visible d (by simp)
      simp only [List.head?_cons, isGap, Bool.or_eq_false_iff] at word
      simp [isSpaceOrEnd_of_isVisible visible, word]

theorem Bare.opens (bare : Bare s) (dash : Avoids (· == '-') r) (dot : Avoids (· == '.') r) :
    Opens (s ++ r) := by
  have indicator := bare.indicator
  simp only [startsIndicator, Bool.or_eq_false_iff] at indicator
  obtain ⟨⟨dashes, dots⟩, -⟩ := indicator
  refine ⟨?_, (isPrefixOf_append dash 3).trans dashes, (isPrefixOf_append dot 3).trans dots⟩
  obtain ⟨c, w, rfl, visible, space, hash⟩ := bare.exists_cons
  exact fresh_visible visible space hash

theorem opens_sign {c : Char} (sign : c ∈ "?:\"'[\x7b".toList) : Opens (c :: r) := by
  simp only [String.reduceToList, List.mem_cons, List.not_mem_nil, or_false] at sign
  rcases sign with rfl | rfl | rfl | rfl | rfl | rfl <;>
    exact ⟨fresh_cons.2 (by decide), rfl, rfl⟩

theorem opens_dash (gap : isSpaceOrEnd (r.headD '\x00') = true) : Opens ('-' :: r) := by
  refine ⟨fresh_cons.2 (by decide), ?_, rfl⟩
  cases r with
  | nil => rfl
  | cons c r =>
    have other : '-' ≠ c := by
      rintro rfl
      cases gap
    simp [List.isPrefixOf, other]

theorem Spelling.opens (spelling : Spelling flat s t) (dash : Avoids (· == '-') r)
    (dot : Avoids (· == '.') r) : Opens (s ++ r) := by
  cases spelling with
  | plain bare => exact bare.opens dash dot
  | quoted sign => exact opens_sign (by rcases sign with rfl | rfl <;> decide)

theorem Spelling.inline (spelling : Spelling flat s t) :
    ∃ c w, s = c :: w ∧ isInline c = true := by
  cases spelling with
  | plain bare =>
    obtain ⟨c, w, rfl, visible, -⟩ := bare.exists_cons
    exact ⟨c, w, rfl, isInline_of_isVisible visible⟩
  | quoted sign => exact ⟨_, _, rfl, by rcases sign with rfl | rfl <;> decide⟩

theorem Spelling.filled (spelling : Spelling flat s t) : 0 < s.length := by
  cases spelling with
  | plain bare => exact List.length_pos_iff.2 bare.filled
  | quoted => exact Nat.succ_pos _

end First

namespace Lexer

section Dispatch

variable {s t u : Lexer} {k : Stack} {m : Mark} {allowed : Bool} {column : Nat} {c : Char}
  {r body : List Char} {tok block : Token}

theorem At.cursor (here : At t k allowed column body) : t.cursor = ⟨body, t.mark⟩ := by
  rw [← here.rest]
  rfl

theorem At.act (here : At t k allowed column body) (filled : body ≠ []) (queued : Bool) :
    act queued t = t.token queued := by
  obtain ⟨c, r, rfl⟩ := List.exists_cons_of_ne_nil filled
  rw [Lexer.act, here.rest]
  rfl

theorem noSeparator (opens : Opens s.cursor.rest) :
    (s.mark.column == 0 && s.cursor.atSeparator) = false := by
  have none : s.cursor.atSeparator = false := not_atSeparator (n := 0) opens
  rw [none, Bool.and_false]

theorem At.separator (here : At t k allowed column body) (opens : Opens body) :
    (t.mark.column == 0 && t.cursor.atSeparator) = false :=
  noSeparator (here.rest.symm ▸ opens)

theorem token_colon (rest : s.cursor.rest = ':' :: r) (gap : isSpaceOrEnd (r.headD '\x00') = true)
    (queued : Bool) : s.token queued = s.colon := by
  have opens : Opens s.cursor.rest := rest.symm ▸ opens_sign (by decide)
  have cursor : s.cursor = ⟨':' :: r, s.cursor.mark⟩ := by rw [← rest]
  have peek : s.cursor.peek = ':' := by rw [cursor]; rfl
  have next : isSpaceOrEnd (s.cursor.peekAt 1) = true := by rwa [cursor, Cursor.peekAt_one]
  simp only [token, peek, next, isColon, noSeparator opens]
  simp

theorem dropKey_of_nil (keys : s.keys = []) : s.dropKey = .ok s := by
  simp [dropKey, keys]

@[simp] theorem cursor_openBlock (n : Nat) : (s.openBlock n tok m).cursor = s.cursor := by
  unfold openBlock
  split <;> rfl

@[simp] theorem keys_openBlock (n : Nat) : (s.openBlock n tok m).keys = s.keys := by
  unfold openBlock
  split <;> rfl

@[simp] theorem brackets_openBlock (n : Nat) : (s.openBlock n tok m).brackets = s.brackets := by
  unfold openBlock
  split <;> rfl

/-- A sign of a block is read, at which the block begins unless it is open. -/
def signed (block tok : Token) (s : Lexer) : Lexer :=
  { s.openBlock s.tokens.size block s.mark with keyAllowed := true }.sign tok 1

theorem At.signed (here : At t k allowed column (c :: r)) (inline : isInline c = true) :
    At (t.signed block tok) ((k.enter column block).push [tok]) true (column + 1) r := by
  have next : (t.openBlock t.tokens.size block t.mark).cursor.skip 1 = ⟨r, t.mark.along 1⟩ := by
    rw [cursor_openBlock, here.cursor, Cursor.skip, Cursor.next_inline inline, Cursor.skip]
  have opened := here.toHolds.openBlock block t.mark
  rw [here.column] at opened
  unfold Lexer.signed sign
  simp only [next]
  refine ⟨(opened.moved _ _ _).emit tok _, ?_, rfl, ?_, rfl⟩
  · exact (keys_openBlock _).trans here.keys
  · exact congrArg (· + 1) here.column

/-- The step that reads a sign. -/
theorem Reaches.signed (reaches : Reaches s k true column (c :: r)) (inline : isInline c = true)
    (outer : k.depth ≤ column + 1) (last : tok ≠ .streamEnd)
    (token : ∀ t queued, At t k true column (c :: r) → t.token queued = .ok (t.signed block tok)) :
    ∃ u, Leads s u ∧ At u ((k.enter column block).push [tok]) true (column + 1) r := by
  obtain ⟨length, t, settled, here⟩ := reaches
  rw [Stack.close_of_le outer] at here
  have after : At (t.signed block tok) ((k.enter column block).push [tok]) true (column + 1) r :=
    here.signed inline
  refine ⟨t.signed block tok, leads_of_act settled (fun queued => ?_) ?_ ?_, after⟩
  · rw [here.act (List.cons_ne_nil _ _), token t queued here]
  · rw [Lexer.signed, sign, isOver_emit]
    simpa using last
  · rw [after.rest]
    exact length

/-- The dash of an item. -/
theorem Reaches.dash (reaches : Reaches s k true column ('-' :: r))
    (outer : k.depth ≤ column + 1) (gap : isSpaceOrEnd (r.headD '\x00') = true) :
    ∃ u, Leads s u ∧
      At u ((k.enter column .blockSequence).push [.blockEntry]) true (column + 1) r := by
  refine reaches.signed (by decide) outer nofun fun t queued here => ?_
  have peek : t.cursor.peek = '-' := by rw [here.cursor]; rfl
  have next : isSpaceOrEnd (t.cursor.peekAt 1) = true := by rwa [here.cursor, Cursor.peekAt_one]
  have dashes : t.token queued = t.dash := by
    simp only [token, peek, next, here.separator (opens_dash gap)]
    simp
  have keys : (t.openBlock t.tokens.size .blockSequence t.mark).keys = [] :=
    (keys_openBlock _).trans here.keys
  rw [dashes, Lexer.dash, here.noBrackets, here.allowed]
  simp [dropKey_of_nil keys, Lexer.signed, Except.map]

/-- The question mark in front of a key. -/
theorem Reaches.question (reaches : Reaches s k true column ('?' :: r))
    (outer : k.depth ≤ column + 1) (gap : isSpaceOrEnd (r.headD '\x00') = true) :
    ∃ u, Leads s u ∧ At u ((k.enter column .blockMapping).push [.key]) true (column + 1) r := by
  refine reaches.signed (by decide) outer nofun fun t queued here => ?_
  have peek : t.cursor.peek = '?' := by rw [here.cursor]; rfl
  have next : isSpaceOrEnd (t.cursor.peekAt 1) = true := by rwa [here.cursor, Cursor.peekAt_one]
  have sign : t.token queued = t.question := by
    simp only [token, peek, next, here.separator (opens_sign (by decide))]
    simp
  have keys : (t.openBlock t.tokens.size .blockMapping t.mark).keys = [] :=
    (keys_openBlock _).trans here.keys
  have brackets : (t.openBlock t.tokens.size .blockMapping t.mark).inBrackets = false := by
    rw [inBrackets, brackets_openBlock, here.brackets]
    rfl
  rw [sign, Lexer.question, here.noBrackets, here.allowed]
  simp [dropKey_of_nil keys, brackets, Lexer.signed, Except.map]

/-- The colon behind a key that has a line of its own. -/
theorem Reaches.colon (reaches : Reaches s k true column (':' :: r))
    (outer : k.depth ≤ column + 1) (gap : isSpaceOrEnd (r.headD '\x00') = true) :
    ∃ u, Leads s u ∧ At u ((k.enter column .blockMapping).push [.value]) true (column + 1) r := by
  refine reaches.signed (by decide) outer nofun fun t queued here => ?_
  have brackets : (t.openBlock t.tokens.size .blockMapping t.mark).inBrackets = false := by
    rw [inBrackets, brackets_openBlock, here.brackets]
    rfl
  rw [token_colon here.rest gap, Lexer.colon, here.noBrackets, here.allowed, here.keys]
  simp [brackets, Lexer.signed]

end Dispatch

section Scalars

variable {s t u : Lexer} {k : Stack} {m : Mark} {allowed flat : Bool} {column : Nat} {c : Char}
  {text r body : List Char} {tok : Token}

/-- The keys behind a scalar: it may be one itself. -/
def saved (t : Lexer) : List (Nat × PossibleKey) :=
  if t.keyAllowed then [(0, ⟨t.tokens.size, t.depth == t.mark.column + 1, t.mark⟩)] else []

theorem At.saveKey (here : At t k allowed column body) :
    t.saveKey = .ok { t with keys := t.saved } := by
  unfold Lexer.saveKey saved
  by_cases may : t.keyAllowed = true
  · rw [if_pos may, if_pos may, dropKey_of_nil here.keys]
    simp [Except.map, here.keys, here.noBrackets, here.brackets]
  · rw [if_neg may, if_neg may]
    exact congrArg (fun keys => Except.ok { t with keys := keys }) here.keys

/-- The lexer behind a scalar. -/
def behind (tok : Token) (ended : Bool) (c : Cursor) (t : Lexer) : Lexer :=
  { t with keys := t.saved, keyAllowed := ended, cursor := c }.emit tok t.mark

theorem At.behind (here : At t k allowed column body) (tok : Token) (ended : Bool) (c : Cursor) :
    Holds (t.behind tok ended c) (k.push [tok]) :=
  (here.toHolds.moved c ended t.saved).emit tok t.mark

theorem At.startsPlain (here : At t k allowed column (c :: r)) (word : StartsWord c r) :
    t.startsPlain = true := by
  have peek : t.cursor.peek = c := by rw [here.cursor]; rfl
  have next : t.cursor.peekAt 1 = r.headD '\x00' := by rw [here.cursor, Cursor.peekAt_one]
  unfold Lexer.startsPlain
  simp only [peek, next, here.noBrackets]
  by_cases dash : c = '-'
  · rw [if_pos dash, word.sign (.inl dash)]
    rfl
  rw [if_neg dash]
  by_cases colon : c = ':'
  · rw [if_pos colon, word.sign (.inr (.inr colon))]
    rfl
  rw [if_neg colon]
  by_cases question : c = '?'
  · rw [if_pos question, word.sign (.inr (.inl question))]
    rfl
  have known : ∀ d ∈ ",[]{}#&*!|>'\"%@`".toList, d ∈ indicators :=
    List.all_iff_forall_prop.1 rfl
  have other : ",[]{}#&*!|>'\"%@`".toList.contains c = false := by
    rw [List.contains_eq_mem, decide_eq_false_iff_not]
    exact fun mem => word.other c (known c mem) rfl
  rw [if_neg question, word.solid, other]
  rfl

theorem At.token_plain (here : At t k allowed column (c :: r)) (opens : Opens (c :: r))
    (word : StartsWord c r) (queued : Bool) : t.token queued = t.plain := by
  have peek : t.cursor.peek = c := by rw [here.cursor]; rfl
  have next : t.cursor.peekAt 1 = r.headD '\x00' := by rw [here.cursor, Cursor.peekAt_one]
  have dash : ¬ (c = '-' ∧ isSpaceOrEnd (t.cursor.peekAt 1) = true) := fun ⟨same, gap⟩ => by
    rw [next, word.sign (.inl same)] at gap
    cases gap
  have question : ¬ (c = '?' ∧
      (isSpaceOrEnd (t.cursor.peekAt 1) = true ∨ t.inBrackets = true)) := fun ⟨same, gap⟩ => by
    rw [next, word.sign (.inr (.inl same)), here.noBrackets] at gap
    simp at gap
  have colon : ¬ (c = ':' ∧ t.isColon queued = true) := fun ⟨same, gap⟩ => by
    rw [isColon, next, word.sign (.inr (.inr same)), here.noBrackets] at gap
    cases gap
  have ne (d : Char) (mem : d ∈ indicators) : ¬ c = d := word.other d mem
  unfold token
  simp only [peek, here.separator opens, here.startsPlain word, Bool.false_eq_true, false_and,
    if_false, if_neg dash, if_neg question, if_neg colon, ne '%' (by decide), ne '[' (by decide),
    ne '\x7b' (by decide), ne ']' (by decide), ne '\x7d' (by decide), ne ',' (by decide),
    ne '*' (by decide), ne '&' (by decide), ne '!' (by decide), ne '|' (by decide),
    ne '>' (by decide), ne '\'' (by decide), ne '"' (by decide), or_self, if_true]

theorem At.token_quoted (here : At t k allowed column (c :: r)) (quote : c = '"' ∨ c = '\'')
    (queued : Bool) : t.token queued = t.quoted c := by
  have opens : Opens (c :: r) := opens_sign (by rcases quote with rfl | rfl <;> decide)
  have peek : t.cursor.peek = c := by rw [here.cursor]; rfl
  simp only [token, peek, here.separator opens]
  rcases quote with rfl | rfl <;> simp

theorem At.quoted (here : At t k allowed column (c :: text ++ r)) (quote : c = '"' ∨ c = '\'')
    {value : List Char} (read : IsQuoted c flat text value) (closed : r.head? ≠ some '\'') :
    ∃ m' : Mark, t.mark.line ≤ m'.line ∧
      (flat = true → m' = t.mark.along (c :: text).length) ∧
      ∀ queued, t.token queued = .ok (t.behind (.scalar false value) false ⟨r, m'⟩) := by
  have inline : isInline c = true := by rcases quote with rfl | rfl <;> decide
  have next : t.cursor.next = ⟨text ++ r, t.mark.along 1⟩ := by
    rw [here.cursor, List.cons_append, Cursor.next_inline inline]
  have enough : text.length ≤ t.cursor.rest.length + 1 := by
    rw [here.rest, List.length_append, List.length_cons]
    omega
  obtain ⟨m', later, short, scanned⟩ := read t.cursor.mark r (t.mark.along 1) _ closed enough
  refine ⟨m', later, fun isFlat => ?_, fun queued => ?_⟩
  · rw [short isFlat, Mark.along_along, List.length_cons, Nat.add_comm]
  · rw [here.token_quoted quote queued, Lexer.quoted, node, here.saveKey]
    simp only [bind, Except.bind]
    rw [next, scanned]
    rfl

theorem At.plain (here : At t k allowed column (text ++ r)) (bare : Bare text)
    (opens : Opens (text ++ r)) {ended : Bool} {c : Cursor}
    (scanned : ∀ fuel, text.length < fuel →
      scanPlain false k.depth fuel ⟨text ++ r, t.mark⟩ = (text, ended, c)) (queued : Bool) :
    t.token queued = .ok (t.behind (.scalar true text) ended c) := by
  obtain ⟨c, w, rfl, word⟩ := bare.startsWord
  have enough : (c :: w).length < t.cursor.rest.length + 1 := by
    rw [here.rest, List.length_append]
    omega
  have scan := scanned _ enough
  rw [← here.cursor, ← here.depth, ← here.noBrackets] at scan
  rw [here.token_plain opens (word r), Lexer.plain, here.saveKey]
  simp only [Except.map]
  rw [inBrackets] at scan ⊢
  simp only [scan]
  rfl

/-- A scalar on its line, up to the colon behind it. -/
theorem At.scalar_colon (here : At t k allowed column (text ++ ':' :: r))
    (spelling : Spelling true text tok) (outer : k.depth ≤ column + 1)
    (gap : isSpaceOrEnd (r.headD '\x00') = true) (queued : Bool) :
    t.token queued = .ok (t.behind tok false ⟨':' :: r, t.mark.along text.length⟩) := by
  have opens : Opens (text ++ ':' :: r) := spelling.opens (by simp) (by simp)
  cases spelling with
  | plain bare =>
    refine here.plain bare opens (fun fuel enough => ?_) queued
    exact scanPlain_colon bare.toWords enough (by rwa [here.column]) gap
  | quoted sign read =>
    obtain ⟨m', -, short, token⟩ := here.quoted sign read (by simp)
    rw [token, short rfl]

/-- What is written behind the value of a line: nothing, or a remark. -/
inductive Remark : List Char → Prop where
  | none : Remark []
  | some {note : List Char} (whole : ∀ c ∈ note, Fault.endsLine c = false) :
    Remark (' ' :: ' ' :: '#' :: note)

theorem Remark.gap {gap : List Char} (remark : Remark gap) : Gap gap := by
  cases remark with
  | none => exact .bare
  | some whole => exact .remark 2 whole

theorem Remark.avoids {gap : List Char} (remark : Remark gap) {d : Char} (space : d ≠ ' ')
    (feed : d ≠ '\n') (r : List Char) : Avoids (· == d) (gap ++ '\n' :: r) := by
  cases remark <;> simp [Ne.symm space, Ne.symm feed]

/-- A key that may come is where the lexer was. -/
theorem mem_saved {key : Nat × PossibleKey} (mem : key ∈ t.saved) :
    key.1 = 0 ∧ key.2.required = (t.depth == t.mark.column + 1) ∧ key.2.mark = t.mark := by
  unfold saved at mem
  split at mem
  · rw [List.mem_singleton.1 mem]
    exact ⟨rfl, rfl, rfl⟩
  · cases mem

theorem At.calm (here : At t k allowed column body) (deep : k.depth ≤ column) {line : Nat}
    (later : t.mark.line < line) (tok : Token) (ended : Bool) (c : Cursor) :
    Calm (t.behind tok ended c) line := by
  intro key mem
  obtain ⟨-, required, mark⟩ := mem_saved mem
  refine ⟨?_, mark ▸ later⟩
  rw [required, here.depth, here.column]
  simp
  omega

/-- A scalar at the end of its line. -/
theorem Reaches.scalar {gap : List Char} {n : Nat}
    (reaches : Reaches s k allowed column (text ++ (gap ++ '\n' :: (List.replicate n ' ' ++ body))))
    (spelling : Spelling flat text tok) (remark : Remark gap) (deep : k.depth ≤ column)
    (opens : Opens body) (shallow : n < k.depth) :
    ∃ u, Leads s u ∧ Reaches u (k.push [tok]) true n body := by
  obtain ⟨length, t, settled, here⟩ := reaches
  rw [Stack.close_of_le (Nat.le_succ_of_le deep)] at here
  have opensText := spelling.opens (remark.avoids (d := '-') (by decide) (by decide)
    (List.replicate n ' ' ++ body)) (remark.avoids (by decide) (by decide) _)
  have leads (ended : Bool) (r : List Char) (m' : Mark)
      (token : ∀ queued, t.token queued = .ok (t.behind tok ended ⟨r, m'⟩))
      (shorter : r.length ≤ (gap ++ '\n' :: (List.replicate n ' ' ++ body)).length) :
      Leads s (t.behind tok ended ⟨r, m'⟩) := by
    refine leads_of_act settled (fun queued => (here.act ?_ queued).trans (token queued)) ?_ ?_
    · simp
    · rw [Lexer.behind, isOver_emit]
      cases spelling <;> rfl
    · have filled := spelling.filled
      rw [List.length_append] at length
      exact Nat.lt_of_le_of_lt shorter (by omega)
  have line (ended : Bool) (gap : List Char) (m' : Mark) (isGap : Gap gap)
      (later : t.mark.line ≤ m'.line) :
      Reaches (t.behind tok ended ⟨gap ++ '\n' :: (List.replicate n ' ' ++ body), m'⟩)
        (k.push [tok]) true n body :=
    reaches_line (here.behind tok ended _) (here.calm deep (Nat.lt_succ_of_le later) tok ended _)
      isGap opens.fresh rfl
  cases spelling with
  | quoted sign read =>
    have closed := (remark.avoids (d := '\'') (by decide) (by decide)
      (List.replicate n ' ' ++ body)).head
    obtain ⟨m', later, -, token⟩ := here.quoted sign read closed
    exact ⟨_, leads false _ m' token (Nat.le_refl _), line false gap m' remark.gap later⟩
  | plain bare =>
    cases remark with
    | none =>
      let m' := (t.mark.along text.length).below.along n
      have token := here.plain bare opensText fun fuel enough =>
        scanPlain_line bare.toWords enough (by rw [here.column]; omega) opens (.inl shallow)
      have column : m'.column + 0 = n := by simp [m', Mark.below]
      have shorter : body.length ≤ ([] ++ '\n' :: (List.replicate n ' ' ++ body)).length := by
        simp only [List.nil_append, List.length_cons, List.length_append]
        omega
      refine ⟨_, leads true body m' token shorter, ?_⟩
      rw [← column]
      exact reaches_here (here.behind (.scalar true text) true _)
        (here.calm deep (Nat.lt_succ_self _) _ _ _) opens.fresh rfl
    | @some note whole =>
      let m' := t.mark.along (text.length + 2)
      have token := here.plain bare opensText fun fuel enough =>
        scanPlain_remark bare.toWords enough (by rw [here.column]; omega) 1
      have shorter : ('#' :: (note ++ '\n' :: (List.replicate n ' ' ++ body))).length ≤
          (' ' :: ' ' :: '#' :: note ++ '\n' :: (List.replicate n ' ' ++ body)).length := by
        simp only [List.cons_append, List.length_cons]
        omega
      exact ⟨_, leads false _ m' token shorter,
        line false ('#' :: note) m' (.remark 0 whole) (Nat.le_refl _)⟩

end Scalars

section Same

variable {s t : Lexer} {k : Stack} {column n : Nat} {text r gap body : List Char} {tok : Token}

theorem dropStale_same (kept : ∀ key ∈ s.keys, isStale s.mark key.2 = false) :
    s.dropStale = .ok s := by
  have none : (s.keys.find? fun k => isStale s.mark k.2 && k.2.required) = none :=
    List.find?_eq_none.2 fun key mem => by simp [kept key mem]
  have all : (s.keys.filter fun k => !isStale s.mark k.2) = s.keys :=
    List.filter_eq_self.2 fun key mem => by simp [kept key mem]
  rw [dropStale, none]
  simp only [all]

theorem skipGaps_same (fresh : Fresh s.cursor.rest) (fuel : Nat) : s.skipGaps (fuel + 1) = s := by
  have blank : Avoids (fun c => c == ' ' || (c == '\t' && s.inBrackets)) s.cursor.rest :=
    fresh.mono fun c h => by
      simp only [Bool.or_eq_true, Bool.and_eq_true, beq_iff_eq] at h
      rcases h with rfl | ⟨rfl, -⟩ <;> rfl
  have other : s.cursor.peek ≠ '#' := Cursor.peek_ne (by decide) fresh.hash
  have skip := Cursor.skipWhile_avoids (m := s.cursor.mark) blank
  have line := Cursor.lineBreak?_avoids (m := s.cursor.mark) fresh.line
  rw [skipGaps, skip]
  simp only [if_neg other, line]

/-- Nothing is passed over, no key is forgotten and no block is closed. -/
theorem settle_same (kept : ∀ key ∈ s.keys, isStale s.mark key.2 = false)
    (fresh : Fresh s.cursor.rest) (closed : s.closeBlocks (s.mark.column + 1) = s) :
    settle s = .ok s := by
  rw [settle, dropStale_same kept]
  simp only [bind, Except.bind]
  rw [skipGaps_same fresh, dropStale_same kept]
  simp only [pure, Except.pure, closed]

theorem closeBlocks_of_le (holds : Holds s k) {least : Nat} (outer : k.depth ≤ least) :
    s.closeBlocks least = s := by
  rw [← holds.depth] at outer
  rw [closeBlocks, holds.noBrackets, if_neg Bool.false_ne_true]
  cases s with
  | mk _ _ _ depth blocks =>
    cases blocks with
    | nil => rfl
    | cons o blocks => exact if_neg (Nat.not_lt.2 outer)

/-- The lexer `v` behind the colon of the key that began where `t` was: the block of the key begins
in front of it, unless it is open. -/
def keyed (t v : Lexer) : Lexer :=
  { (v.insert t.tokens.size .key t.mark).openBlock t.tokens.size .blockMapping t.mark with
    keys := [], keyAllowed := false }.sign .value 1

theorem At.keys_behind (here : At t k true column body) (tok : Token) (c : Cursor) :
    (t.behind tok false c).keys =
      [(0, ⟨t.tokens.size, t.depth == t.mark.column + 1, t.mark⟩)] := by
  show t.saved = _
  rw [saved, here.allowed, if_pos rfl]

/-- Behind a scalar that may be a key nothing is passed over. -/
theorem At.settle_behind (here : At t k true column body) (tok : Token) (short : n ≤ maxKey)
    (outer : k.depth ≤ column + 1) :
    settle (t.behind tok false ⟨':' :: r, t.mark.along n⟩) =
      .ok (t.behind tok false ⟨':' :: r, t.mark.along n⟩) := by
  let v := t.behind tok false ⟨':' :: r, t.mark.along n⟩
  refine settle_same (fun key mem => ?_) (fresh_cons.2 (by decide))
    (closeBlocks_of_le (here.behind tok false _) ?_)
  · rw [here.keys_behind, List.mem_singleton] at mem
    have line : v.mark.line = t.mark.line := rfl
    have index : v.mark.index = t.mark.index + n := rfl
    show isStale v.mark key.2 = false
    simp only [mem, isStale, line, index, bne_self_eq_false, Bool.false_or,
      decide_eq_false_iff_not]
    omega
  · have behind : v.mark.column = t.mark.column + n := rfl
    rw [Stack.depth_push, behind, here.column]
    omega

/-- At the colon the scalar becomes a key. -/
theorem At.act_colon (here : At t k true column body) (tok : Token) (m : Mark)
    (gap : isSpaceOrEnd (r.headD '\x00') = true) (queued : Bool) :
    Lexer.act queued (t.behind tok false ⟨':' :: r, m⟩) =
      .ok (t.keyed (t.behind tok false ⟨':' :: r, m⟩)) := by
  have keys := here.keys_behind tok ⟨':' :: r, m⟩
  have brackets : (t.behind tok false ⟨':' :: r, m⟩).brackets = [] := here.brackets
  have token : Lexer.act queued (t.behind tok false ⟨':' :: r, m⟩) =
      (t.behind tok false ⟨':' :: r, m⟩).token queued := rfl
  have outside : ((t.behind tok false ⟨':' :: r, m⟩).insert t.tokens.size .key t.mark).inBrackets =
      false := by
    show (!(t.behind tok false ⟨':' :: r, m⟩).brackets.isEmpty) = false
    rw [brackets]
    rfl
  rw [token, token_colon rfl gap, Lexer.colon]
  simp only [brackets, keys, List.length_nil, List.lookup_cons, beq_self_eq_true, outside,
    Bool.false_eq_true, if_false, keys_openBlock]
  simp [insert, keys, keyed]

theorem At.keyed (here : At t k true column body) (tok : Token) (m : Mark) :
    At (t.keyed (t.behind tok false ⟨':' :: r, m⟩))
      ((k.enter column .blockMapping).push [.key, tok, .value]) false (m.column + 1) r := by
  let v := t.behind tok false ⟨':' :: r, m⟩
  let w := (v.insert t.tokens.size .key t.mark).openBlock t.tokens.size .blockMapping t.mark
  have held : Holds w ((k.enter column .blockMapping).push [.key, tok]) := by
    have pushed : v.tokens.toList = t.tokens.toList ++ [⟨tok, t.mark, v.mark⟩] := Array.toList_push
    have opened := openBlock_spec (s := v.insert t.tokens.size .key t.mark)
      (toList_insert pushed ⟨.key, t.mark, t.mark⟩) here.depth here.outer here.brackets here.tokens
      .blockMapping t.mark
    rwa [here.column, Array.length_toList] at opened
  have cursor : w.cursor.skip 1 = ⟨r, m.along 1⟩ := by
    rw [cursor_openBlock]
    exact Cursor.next_inline (by decide)
  have after := (held.moved (w.cursor.skip 1) false []).emit .value w.mark
  rw [Stack.push_push] at after
  refine ⟨after, rfl, rfl, ?_, ?_⟩
  · show (w.cursor.skip 1).mark.column = _
    rw [cursor]
    rfl
  · show (w.cursor.skip 1).rest = r
    rw [cursor]

/-- A key with its colon. -/
theorem Reaches.key (reaches : Reaches s k true column (text ++ ':' :: r))
    (spelling : Spelling true text tok) (short : text.length ≤ maxKey)
    (outer : k.depth ≤ column + 1) (gap : isSpaceOrEnd (r.headD '\x00') = true) :
    ∃ u c, column ≤ c ∧ Leads s u ∧
      At u ((k.enter column .blockMapping).push [.key, tok, .value]) false c r := by
  obtain ⟨length, t, settled, here⟩ := reaches
  rw [Stack.close_of_le outer] at here
  let v := t.behind tok false ⟨':' :: r, t.mark.along text.length⟩
  have filled := spelling.filled
  rw [List.length_append] at length
  have notEnd : tok ≠ .streamEnd := by cases spelling <;> exact nofun
  have first : Leads s v := by
    refine leads_of_act settled (fun queued => ?_) ?_ ?_
    · rw [here.act (by simp)]
      exact here.scalar_colon spelling outer gap queued
    · exact isOver_emit.trans (by simpa using notEnd)
    · show (':' :: r).length < s.cursor.rest.length
      omega
  have after : At (t.keyed v) _ false _ r := here.keyed tok (t.mark.along text.length)
  have second : Leads v (t.keyed v) := by
    refine leads_of_act (here.settle_behind tok short outer) (here.act_colon tok _ gap)
      isOver_emit ?_
    rw [after.rest]
    exact Nat.lt_succ_self _
  refine ⟨t.keyed v, _, ?_, first.trans second, after⟩
  rw [Mark.column_along, here.column]
  omega

/-- Brackets with nothing between them. -/
inductive Brackets : Char → Char → Token → Token → Prop where
  | list : Brackets '[' ']' .openList .closeList
  | record : Brackets '\x7b' '\x7d' .openRecord .closeRecord

theorem Brackets.token_open {o c : Char} {a b : Token} (kind : Brackets o c a b)
    (rest : s.cursor.rest = o :: r) (queued : Bool) : s.token queued = s.openBracket a := by
  have opens : Opens s.cursor.rest := by
    rw [rest]
    exact opens_sign (by cases kind <;> decide)
  have peek : s.cursor.peek = o := by rw [Cursor.peek, rest]; rfl
  simp only [token, peek, noSeparator opens]
  cases kind <;> simp

theorem Brackets.token_close {o c : Char} {a b : Token} (kind : Brackets o c a b)
    (rest : s.cursor.rest = c :: r) (queued : Bool) : s.token queued = s.closeBracket b := by
  have opens : Opens s.cursor.rest := by
    rw [rest]
    cases kind <;> exact ⟨fresh_cons.2 (by decide), rfl, rfl⟩
  have peek : s.cursor.peek = c := by rw [Cursor.peek, rest]; rfl
  simp only [token, peek, noSeparator opens]
  cases kind <;> simp

/-- The lexer behind an opening bracket. -/
def opened (a : Token) (t : Lexer) : Lexer :=
  { t with keys := t.saved, brackets := t.cursor.peek :: t.brackets, keyAllowed := true }.sign a 1

/-- The lexer behind a bracket and the one that closes it. -/
def enclosed (a b : Token) (t : Lexer) : Lexer :=
  { t.opened a with brackets := t.brackets, keyAllowed := false }.sign b 1

theorem At.cursor_opened {o : Char} {allowed : Bool} (here : At t k allowed column (o :: r))
    (inline : isInline o = true) (a : Token) : (t.opened a).cursor = ⟨r, t.mark.along 1⟩ := by
  show t.cursor.skip 1 = _
  rw [here.cursor]
  exact Cursor.next_inline inline

theorem At.settle_opened {o c : Char} {a b : Token} {allowed : Bool}
    (here : At t k allowed column (o :: c :: r)) (kind : Brackets o c a b) :
    settle (t.opened a) = .ok (t.opened a) := by
  have cursor := here.cursor_opened (by cases kind <;> decide) a
  refine settle_same (fun key mem => ?_) ?_ rfl
  · obtain ⟨-, -, mark⟩ := mem_saved mem
    have here : (t.opened a).mark = t.mark.along 1 := congrArg Cursor.mark cursor
    simp [isStale, mark, here, maxKey]
  · rw [cursor]
    exact fresh_cons.2 (by cases kind <;> decide)

theorem At.act_enclosed {o c : Char} {a b : Token} {allowed : Bool}
    (here : At t k allowed column (o :: c :: r)) (kind : Brackets o c a b) (queued : Bool) :
    Lexer.act queued (t.opened a) = .ok (t.enclosed a b) := by
  have rest : (t.opened a).cursor.rest = c :: r :=
    congrArg Cursor.rest (here.cursor_opened (by cases kind <;> decide) a)
  have filled : Lexer.act queued (t.opened a) = (t.opened a).token queued := by
    rw [Lexer.act, rest]
    rfl
  have level : (t.opened a).brackets.length = 1 := congrArg (·.length + 1) here.brackets
  have none : (t.opened a).keys.lookup (t.opened a).brackets.length = none := by
    rw [level, List.lookup_eq_none_iff]
    intro key mem
    rw [(mem_saved mem).1]
    rfl
  rw [filled, kind.token_close rest, closeBracket, dropKey, none]
  rfl

theorem At.enclosed {allowed : Bool} {body : List Char} (here : At t k allowed column body)
    (a b : Token) : Holds (t.enclosed a b) (k.push [a, b]) :=
  ⟨by simp [Lexer.enclosed, opened, sign, emit, Stack.push, here.tokens], here.depth, here.outer,
    here.brackets⟩

/-- Empty brackets at the end of a line. -/
theorem Reaches.brackets {o c : Char} {a b : Token} {allowed : Bool}
    (reaches : Reaches s k allowed column
      (o :: c :: (gap ++ '\n' :: (List.replicate n ' ' ++ body))))
    (kind : Brackets o c a b) (isGap : Gap gap) (deep : k.depth ≤ column) (fresh : Fresh body) :
    ∃ u, Leads s u ∧ Reaches u (k.push [a, b]) true n body := by
  obtain ⟨length, t, settled, here⟩ := reaches
  rw [Stack.close_of_le (Nat.le_succ_of_le deep)] at here
  have inline : isInline o = true ∧ isInline c = true := by cases kind <;> decide
  have cursor := here.cursor_opened inline.1 a
  have last : (t.enclosed a b).cursor =
      ⟨gap ++ '\n' :: (List.replicate n ' ' ++ body), (t.mark.along 1).along 1⟩ := by
    show (t.opened a).cursor.skip 1 = _
    rw [cursor]
    exact Cursor.next_inline inline.2
  have first : Leads s (t.opened a) := by
    refine leads_of_act settled (fun queued => ?_) ?_ ?_
    · rw [here.act (List.cons_ne_nil _ _), kind.token_open here.rest, openBracket, here.saveKey]
      rfl
    · exact isOver_emit.trans (by cases kind <;> rfl)
    · rw [cursor]
      exact length
  have second : Leads (t.opened a) (t.enclosed a b) := by
    refine leads_of_act (here.settle_opened kind) (here.act_enclosed kind) ?_ ?_
    · exact isOver_emit.trans (by cases kind <;> rfl)
    · rw [cursor, last]
      exact Nat.lt_succ_self _
  refine ⟨t.enclosed a b, first.trans second,
    reaches_line (here.enclosed a b) (fun key mem => ?_) isGap fresh last⟩
  obtain ⟨-, required, mark⟩ := mem_saved mem
  refine ⟨?_, ?_⟩
  · rw [required, here.depth, here.column]
    simp
    omega
  · rw [mark]
    exact Nat.lt_succ_self _

/-- The end of the text. -/
theorem Reaches.finish (reaches : Reaches s k true 0 []) (fuel : Nat) :
    ∃ ts, run (fuel + 1) s = ⟨ts, none⟩ ∧
      ts.map Placed.token = ((k.close 1).close 0).tokens ++ [.streamEnd] := by
  obtain ⟨-, t, settled, here⟩ := reaches
  obtain ⟨d, o, us, closed, held⟩ := here.toHolds.closeBlocks 0
  have keys : (t.closeBlocks 0).keys = [] := by rw [closed]; exact here.keys
  let u : Lexer := { t.closeBlocks 0 with keys := [] }.emit .streamEnd (t.closeBlocks 0).mark
  have acts (queued : Bool) : act queued t = .ok u := by
    have finishes : act queued t = t.finish := by rw [act, here.rest]; rfl
    rw [finishes, Lexer.finish, dropKey_of_nil keys]
    rfl
  refine ⟨u.tokens.toList, ?_, (held.emit .streamEnd (t.closeBlocks 0).mark).tokens⟩
  rw [run_of_settle settled acts, isOver_emit]
  rfl

end Same

end Lexer
end HostPlan.Yaml
