import HostPlan.Data.Yaml.Lexer
import HostPlan.Proofs.Data.Yaml.Quoted
/-!
How a text is cut into tokens, step by step. A step first settles: it passes over blanks, remarks
and line breaks, forgets keys that can no longer come and closes blocks that are over. What it does
then depends on the settled lexer alone.
-/
namespace HostPlan.Yaml.Lexer

/-- The tokens so far, whatever their marks, and the blocks that are open. -/
structure Stack where
  tokens : List Token
  depth : Nat
  outer : List Nat

namespace Stack

def push (k : Stack) (ts : List Token) : Stack := { k with tokens := k.tokens ++ ts }

def closing (least : Nat) : Nat → List Nat → List Token → Stack
  | depth, [], ts => ⟨ts, depth, []⟩
  | depth, o :: outer, ts =>
    if least < depth then closing least o outer (ts ++ [.blockEnd]) else ⟨ts, depth, o :: outer⟩

/-- The blocks deeper than a depth end. -/
def close (least : Nat) (k : Stack) : Stack := closing least k.depth k.outer k.tokens

/-- A block begins in a column, unless it is open. -/
def enter (column : Nat) (t : Token) (k : Stack) : Stack :=
  if k.depth < column + 1 then ⟨k.tokens ++ [t], column + 1, k.depth :: k.outer⟩ else k

variable {k : Stack} {least column depth o : Nat} {ts us : List Token} {outer : List Nat}

@[simp] theorem push_nil : k.push [] = k := by simp [push]

@[simp] theorem push_push : (k.push ts).push us = k.push (ts ++ us) := by simp [push]

@[simp] theorem depth_push : (k.push ts).depth = k.depth := rfl

theorem close_of_le (h : k.depth ≤ least) : k.close least = k := by
  obtain ⟨tokens, depth, outer⟩ := k
  cases outer with
  | nil => rfl
  | cons o outer => exact if_neg (Nat.not_lt.2 h)

/-- A block that is over is no longer seen. -/
theorem close_inner (h : least < depth) :
    (Stack.mk ts depth (o :: outer)).close least =
      (Stack.mk (ts ++ [.blockEnd]) o outer).close least :=
  if_pos h

end Stack

/-- The lexer has these tokens and these blocks, and no bracket is open. -/
structure Holds (s : Lexer) (k : Stack) : Prop where
  tokens : s.tokens.toList.map Placed.token = k.tokens
  depth : s.depth = k.depth
  outer : s.outer = k.outer
  brackets : s.brackets = []

section Holds

variable {s : Lexer} {k : Stack} {m : Mark} {t : Token} {least : Nat}

theorem Holds.noBrackets (holds : Holds s k) : s.inBrackets = false := by
  rw [Lexer.inBrackets, holds.brackets]
  rfl

/-- Where the lexer is and which keys may come do not matter. -/
theorem Holds.moved (holds : Holds s k) (c : Cursor) (allowed : Bool)
    (keys : List (Nat × PossibleKey)) :
    Holds { s with cursor := c, keyAllowed := allowed, keys := keys } k :=
  ⟨holds.tokens, holds.depth, holds.outer, holds.brackets⟩

theorem Holds.emit (holds : Holds s k) (t : Token) (m : Mark) :
    Holds (s.emit t m) (k.push [t]) where
  tokens := by simp [Lexer.emit, Stack.push, holds.tokens]
  depth := holds.depth
  outer := holds.outer
  brackets := holds.brackets

/-- A token is put in front of those behind a place. -/
theorem toList_insert {a : Array Placed} {l r : List Placed} (parts : a.toList = l ++ r)
    (p : Placed) : (a.insertIdxIfInBounds l.length p).toList = l ++ p :: r := by
  have insert : (l ++ r).insertIdx l.length p = l ++ p :: r := by
    clear parts
    induction l with
    | nil => rfl
    | cons q l ih => simp [ih]
  have le : l.length ≤ a.size := by
    rw [← Array.length_toList, parts, List.length_append]
    omega
  rw [Array.insertIdxIfInBounds, dif_pos le, Array.toList_insertIdx, parts, insert]

/-- A block begins in front of some of the tokens. -/
theorem openBlock_spec {l r : List Placed} (parts : s.tokens.toList = l ++ r)
    (depth : s.depth = k.depth) (outer : s.outer = k.outer) (brackets : s.brackets = [])
    (before : l.map Placed.token = k.tokens) (t : Token) (m : Mark) :
    Holds (s.openBlock l.length t m) ((k.enter m.column t).push (r.map Placed.token)) := by
  unfold Lexer.openBlock Stack.enter
  rw [depth]
  split
  · refine ⟨?_, rfl, congrArg (k.depth :: ·) outer, brackets⟩
    simp [Lexer.insert, toList_insert parts, Stack.push, before]
  · exact ⟨by simp [parts, Stack.push, before], depth, outer, brackets⟩

theorem Holds.openBlock (holds : Holds s k) (t : Token) (m : Mark) :
    Holds (s.openBlock s.tokens.size t m) (k.enter m.column t) := by
  have opened := openBlock_spec (r := []) (List.append_nil _).symm holds.depth holds.outer
    holds.brackets holds.tokens t m
  rwa [Array.length_toList, List.map_nil, Stack.push_nil] at opened

theorem closing_spec (least : Nat) (m : Mark) (depth : Nat) (outer : List Nat) (ts : Array Placed)
    (s : Lexer) :
    ∃ d o us, closing least m depth outer ts s = { s with depth := d, outer := o, tokens := us } ∧
      Stack.closing least depth outer (ts.toList.map Placed.token) =
        ⟨us.toList.map Placed.token, d, o⟩ := by
  induction outer generalizing depth ts with
  | nil => exact ⟨depth, [], ts, rfl, rfl⟩
  | cons o outer ih =>
    by_cases deep : least < depth
    · obtain ⟨d, o', us, closed, same⟩ := ih o (ts.push ⟨.blockEnd, m, m⟩)
      refine ⟨d, o', us, ?_, ?_⟩
      · rw [closing, if_pos deep, closed]
      · rw [Stack.closing, if_pos deep, ← same]
        simp
    · exact ⟨depth, o :: outer, ts, by rw [closing, if_neg deep],
        by rw [Stack.closing, if_neg deep]⟩

/-- Closing blocks changes no more than the tokens and the blocks. -/
theorem Holds.closeBlocks (holds : Holds s k) (least : Nat) :
    ∃ d o us, s.closeBlocks least = { s with depth := d, outer := o, tokens := us } ∧
      Holds (s.closeBlocks least) (k.close least) := by
  obtain ⟨d, o, us, closed, same⟩ := closing_spec least s.mark s.depth s.outer s.tokens s
  have here : s.closeBlocks least = { s with depth := d, outer := o, tokens := us } := by
    rw [Lexer.closeBlocks, holds.noBrackets, if_neg Bool.false_ne_true, closed]
  refine ⟨d, o, us, here, ?_⟩
  rw [holds.depth, holds.outer, holds.tokens] at same
  rw [here, Stack.close, same]
  exact ⟨rfl, rfl, rfl, holds.brackets⟩

end Holds

section Settle

/-- The lexer in front of its next token. -/
def settle (s : Lexer) : Except Fault Lexer := do
  let s ← s.dropStale
  let s ← (s.skipGaps (s.cursor.rest.length + 1)).dropStale
  pure (s.closeBlocks (s.mark.column + 1))

variable {s t u : Lexer} {k : Stack} {m : Mark} {fuel n column : Nat} {body gap rest : List Char}
  {allowed : Bool}

/-- What is done with a lexer that has settled. -/
def act (queued : Bool) (s : Lexer) : Except Fault Lexer :=
  if s.cursor.rest.isEmpty then s.finish else s.token queued

/-- No token comes behind the last one. -/
def isOver (s : Lexer) : Bool := s.tokens.back?.any fun t => t.token == .streamEnd

theorem run_of_settle (settled : settle s = .ok t) (acts : ∀ queued, act queued t = .ok u) :
    run (fuel + 1) s = if isOver u then ⟨u.tokens.toList, none⟩ else run fuel u := by
  unfold settle at settled
  cases first : s.dropStale with
  | error e => rw [first] at settled; cases settled
  | ok s₁ =>
    rw [first] at settled
    cases second : (s₁.skipGaps (s₁.cursor.rest.length + 1)).dropStale with
    | error e => simp [bind, Except.bind, second] at settled
    | ok s₂ =>
      simp only [bind, Except.bind, second, pure, Except.pure, Except.ok.injEq] at settled
      subst settled
      have step : s₁.step = .ok u := by
        rw [step, second]
        exact acts _
      rw [run, first]
      simp only [step]
      rfl

/-- Outside of brackets only spaces are blank. -/
theorem blank_outside (brackets : s.inBrackets = false) :
    (fun c => c == ' ' || (c == '\t' && s.inBrackets)) = (· == ' ') := by
  simp [brackets]

theorem skipGaps_here (brackets : s.inBrackets = false) (fresh : Fresh body)
    (here : s.cursor = ⟨List.replicate n ' ' ++ body, m⟩) :
    skipGaps (fuel + 1) s = { s with cursor := ⟨body, m.along n⟩ } := by
  have noRemark : (Cursor.mk body (m.along n)).peek ≠ '#' :=
    Cursor.peek_ne (by decide) fresh.hash
  rw [skipGaps, here, blank_outside brackets, Cursor.skipWhile_spaces rfl fresh.space]
  simp only [if_neg noRemark, Cursor.lineBreak?_avoids fresh.line]

/-- What may stand at the end of a line: nothing, or a remark behind some spaces. -/
inductive Gap : List Char → Prop where
  | bare : Gap []
  | remark (n : Nat) {note : List Char} (whole : ∀ c ∈ note, Fault.endsLine c = false) :
    Gap (List.replicate n ' ' ++ '#' :: note)

/-- A line break behind a gap leads to one and the same place whatever else the lexer holds. -/
theorem skipGaps_gap (isGap : Gap gap) (rest : List Char) (m : Mark) :
    ∃ m' : Mark, m'.line = m.line + 1 ∧ m'.column = 0 ∧
      ∀ (s : Lexer) (fuel : Nat), s.inBrackets = false → s.cursor = ⟨gap ++ '\n' :: rest, m⟩ →
        skipGaps (fuel + 1) s =
          skipGaps fuel { s with cursor := ⟨rest, m'⟩, keyAllowed := true } := by
  cases isGap with
  | bare =>
    have feed : Avoids (· == ' ') ('\n' :: rest) := by simp
    have other : (Cursor.mk ('\n' :: rest) m).peek ≠ '#' := by simp
    refine ⟨m.below, rfl, rfl, fun s fuel brackets here => ?_⟩
    rw [skipGaps, here, blank_outside brackets, List.nil_append, Cursor.skipWhile_avoids feed]
    simp only [if_neg other, Cursor.lineBreak?_feed, brackets, Bool.not_false, Bool.or_true]
  | @remark n note whole =>
    have sign : Avoids (· == ' ') ('#' :: note ++ '\n' :: rest) := by simp
    have same : (Cursor.mk ('#' :: note ++ '\n' :: rest) (m.along n)).peek = '#' := rfl
    have line : ∀ c ∈ '#' :: note, Fault.endsLine c = false :=
      List.forall_mem_cons.2 ⟨by decide, whole⟩
    have all : ∀ c ∈ '#' :: note, (!Fault.endsLine c) = true := fun c mem => by simp [line c mem]
    have feed : Avoids (fun c => !Fault.endsLine c) ('\n' :: rest) := by
      simp [Fault.endsLine, isBreak]
    obtain ⟨column, skipped⟩ := Cursor.skip_line line (r := '\n' :: rest) (m := m.along n)
    let m₁ : Mark := ⟨(m.along n).index + ('#' :: note).length, m.line, column⟩
    have passed : (Cursor.mk ('#' :: note ++ '\n' :: rest) (m.along n)).skipWhile
        (fun c => !Fault.endsLine c) = ⟨'\n' :: rest, m₁⟩ := by
      rw [Cursor.skipWhile, Cursor.span_append all feed, skipped]
      rfl
    refine ⟨m₁.below, rfl, rfl, fun s fuel brackets here => ?_⟩
    rw [skipGaps, here, blank_outside brackets, List.append_assoc,
      Cursor.skipWhile_spaces rfl sign]
    simp only [if_pos same, passed, Cursor.lineBreak?_feed, brackets, Bool.not_false, Bool.or_true]

theorem dropStale_of_calm (calm : ∀ key ∈ s.keys, key.2.required = false) :
    s.dropStale = .ok { s with keys := s.keys.filter fun k => !isStale s.mark k.2 } := by
  have none : (s.keys.find? fun k => isStale s.mark k.2 && k.2.required) = none :=
    List.find?_eq_none.2 fun key mem => by simp [calm key mem]
  rw [dropStale, none]

/-- The lexer is in front of a text in a column, with no key to come. -/
structure At (s : Lexer) (k : Stack) (allowed : Bool) (column : Nat) (rest : List Char) : Prop
    extends Holds s k where
  keys : s.keys = []
  allowed : s.keyAllowed = allowed
  column : s.mark.column = column
  rest : s.cursor.rest = rest

/-- The lexer settles in front of a text in a column, with no key to come. -/
def Reaches (s : Lexer) (k : Stack) (allowed : Bool) (column : Nat) (body : List Char) : Prop :=
  body.length ≤ s.cursor.rest.length ∧
    ∃ t, settle s = .ok t ∧ At t (k.close (column + 1)) allowed column body

/-- Keys that nothing can follow on a later line. -/
def Calm (s : Lexer) (line : Nat) : Prop :=
  ∀ key ∈ s.keys, key.2.required = false ∧ key.2.mark.line < line

/-- Gaps are passed over whatever keys there are, and then the keys are forgotten. -/
theorem settle_of_skipGaps (holds : Holds s k) (calm : Calm s m.line)
    (skips : ∀ keys, skipGaps (s.cursor.rest.length + 1) { s with keys := keys } =
      { s with keys := keys, cursor := ⟨body, m⟩, keyAllowed := allowed }) :
    ∃ t, settle s = .ok t ∧ At t (k.close (m.column + 1)) allowed m.column body := by
  have required : ∀ key ∈ s.keys, key.2.required = false := fun key mem => (calm key mem).1
  let kept := s.keys.filter fun k => !isStale s.mark k.2
  let there : Lexer := { s with keys := kept, cursor := ⟨body, m⟩, keyAllowed := allowed }
  let clear : Lexer := { s with keys := [], cursor := ⟨body, m⟩, keyAllowed := allowed }
  have first : s.dropStale = .ok { s with keys := kept } := dropStale_of_calm required
  have second : there.dropStale = .ok clear := by
    have none : kept.filter (fun k => !isStale m k.2) = [] := by
      rw [List.filter_eq_nil_iff]
      intro key mem
      have line := (calm key (List.mem_filter.1 mem).1).2
      simp [isStale, Nat.ne_of_lt line]
    rw [dropStale_of_calm fun key mem => required key (List.mem_filter.1 mem).1]
    exact congrArg (fun keys => Except.ok { there with keys := keys }) none
  have holds' : Holds clear k := holds.moved ⟨body, m⟩ allowed []
  obtain ⟨d, o, us, closed, after⟩ := holds'.closeBlocks (m.column + 1)
  refine ⟨clear.closeBlocks (m.column + 1), ?settled, ⟨after, ?keys, ?allowed, ?column, ?rest⟩⟩
  case settled =>
    rw [settle, first]
    simp only [bind, Except.bind]
    rw [skips kept, second]
    rfl
  case column => exact congrArg (fun u : Lexer => u.mark.column) closed
  all_goals rw [closed]

/-- The lexer settles in front of something on its line. -/
theorem reaches_here (holds : Holds s k) (calm : Calm s m.line) (fresh : Fresh body)
    (here : s.cursor = ⟨List.replicate n ' ' ++ body, m⟩) :
    Reaches s k s.keyAllowed (m.column + n) body := by
  refine ⟨by simp [here], ?_⟩
  exact settle_of_skipGaps (m := m.along n) holds calm fun keys =>
    skipGaps_here holds.noBrackets fresh here

/-- The lexer settles at the start of the next line. -/
theorem reaches_line (holds : Holds s k) (calm : Calm s (m.line + 1)) (isGap : Gap gap)
    (fresh : Fresh body)
    (here : s.cursor = ⟨gap ++ '\n' :: (List.replicate n ' ' ++ body), m⟩) :
    Reaches s k true n body := by
  have long : body.length < s.cursor.rest.length := by
    simp only [here, List.length_append, List.length_cons, List.length_replicate]
    omega
  obtain ⟨length, more⟩ := Nat.exists_eq_add_of_lt long
  obtain ⟨m', line, column, passed⟩ := skipGaps_gap isGap (List.replicate n ' ' ++ body) m
  have settles : ∃ t, settle s = .ok t ∧
      At t (k.close ((m'.along n).column + 1)) true (m'.along n).column body :=
    settle_of_skipGaps holds (by rwa [Mark.line_along, line]) fun keys => by
      rw [more]
      exact (passed { s with keys := keys } _ holds.noBrackets here).trans
        (skipGaps_here holds.noBrackets fresh rfl)
  rw [Mark.column_along, column, Nat.zero_add] at settles
  exact ⟨Nat.le_of_lt long, settles⟩

end Settle

section Leads

variable {s t u : Lexer} {k : Stack} {fuel : Nat} {tok : Token} {m : Mark}

/-- Some steps lead from one state to another, and each of them reads a part of the text. -/
def Leads (s t : Lexer) : Prop :=
  ∃ n, n + t.cursor.rest.length ≤ s.cursor.rest.length ∧ ∀ fuel, run (fuel + n) s = run fuel t

theorem Leads.refl (s : Lexer) : Leads s s := ⟨0, by omega, fun _ => rfl⟩

theorem Leads.trans (first : Leads s t) (second : Leads t u) : Leads s u := by
  obtain ⟨n₁, less₁, run₁⟩ := first
  obtain ⟨n₂, less₂, run₂⟩ := second
  refine ⟨n₂ + n₁, by omega, fun fuel => ?_⟩
  rw [← Nat.add_assoc, run₁, run₂]

@[simp] theorem isOver_emit : isOver (s.emit tok m) = (tok == .streamEnd) := by
  simp [isOver, Lexer.emit]

/-- One step that reads a token. -/
theorem leads_of_act (settled : settle s = .ok t) (acts : ∀ queued, act queued t = .ok u)
    (onward : isOver u = false) (shorter : u.cursor.rest.length < s.cursor.rest.length) :
    Leads s u := by
  refine ⟨1, by omega, fun fuel => ?_⟩
  rw [run_of_settle settled acts, onward]
  rfl

end Leads

end HostPlan.Yaml.Lexer
