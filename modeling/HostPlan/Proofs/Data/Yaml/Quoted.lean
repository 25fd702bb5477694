import HostPlan.Proofs.Data.Yaml.Unquoted
/-!
What is read from a quoted scalar. In double quotes every text is read as it was written. In single
quotes a text is folded where it holds line breaks of the kinds that are written as they are.
-/
namespace HostPlan.Yaml

section Escapes

variable {c : Char} {r : List Char} {m : Mark}

/-- How a character is written in double quotes: with a letter behind a backslash, as it is, or with
its code behind a backslash and a letter. -/
inductive Escape : Char → List Char → Prop where
  | short {c e : Char} (known : simpleEscapes.lookup e = some c) (inline : isInline e = true) :
    Escape c ['\\', e]
  | visible {c : Char} (visible : isVisible c = true) (quote : c ≠ '"') (backslash : c ≠ '\\') :
    Escape c [c]
  | code {c e : Char} {digits : List Char} (letter : simpleEscapes.lookup e = none)
    (inline : isInline e = true) (length : escapeLength? e = some digits.length)
    (few : digits.length ≤ 4)
    (hex : ∀ d ∈ digits, isHex d = true ∧ isInline d = true) (value : hexValueOf digits = c.toNat) :
    Escape c ('\\' :: e :: digits)

theorem hex_byte : ∀ n < 0x100, (upperHex 2 n).length = 2 ∧
    (∀ d ∈ upperHex 2 n, isHex d = true ∧ isInline d = true) ∧ hexValueOf (upperHex 2 n) = n := by
  have all : ∀ n < 0x100, (upperHex 2 n).length = 2 ∧
      (upperHex 2 n).all (fun d => isHex d && isInline d) = true ∧
      hexValueOf (upperHex 2 n) = n := by
    decide +kernel
  simpa only [List.all_eq_true, Bool.and_eq_true] using all

/-- No other character beyond the first 256 has to be escaped. -/
theorem hex_unit : ∀ n ∈ [0xFEFF, 0xFFFE, 0xFFFF], (upperHex 4 n).length = 4 ∧
    (∀ d ∈ upperHex 4 n, isHex d = true ∧ isInline d = true) ∧ hexValueOf (upperHex 4 n) = n := by
  have all : ∀ n ∈ [0xFEFF, 0xFFFE, 0xFFFF], (upperHex 4 n).length = 4 ∧
      (upperHex 4 n).all (fun d => isHex d && isInline d) = true ∧
      hexValueOf (upperHex 4 n) = n := by
    decide
  simpa only [List.all_eq_true, Bool.and_eq_true] using all

theorem escape_escapeChar (c : Char) : Escape c (escapeChar c) := by
  unfold escapeChar
  split
  · rename_i e found
    have all : ∀ p ∈ shortEscapes, simpleEscapes.lookup p.2 = some p.1 ∧ isInline p.2 = true := by
      decide
    obtain ⟨before, after, parts, -⟩ := List.lookup_eq_some_iff.1 found
    have mem : (c, e) ∈ shortEscapes := by simp [parts]
    exact .short (all _ mem).1 (all _ mem).2
  · rename_i missing
    have other : ∀ p ∈ shortEscapes, c ≠ p.1 := by simpa using List.lookup_eq_none_iff.1 missing
    have noBreak : isBreak c = false := by
      simp only [isBreak, Bool.or_eq_false_iff, beq_eq_false_iff_ne]
      exact ⟨⟨⟨other ('\n', 'n') (by decide), other ('\x85', 'N') (by decide)⟩,
        other ('\u2028', 'L') (by decide)⟩, other ('\u2029', 'P') (by decide)⟩
    split
    · rename_i printable
      exact .visible (by rw [isVisible, printable, noBreak]; rfl) (other ('"', '"') (by decide))
        (other ('\\', '\\') (by decide))
    · rename_i special
      split
      · rename_i byte
        obtain ⟨length, hex, value⟩ := hex_byte c.toNat (Nat.lt_succ_of_le byte)
        exact .code (by decide) (by decide) (by rw [length]; rfl) (by omega) hex value
      · rename_i wide
        have few : c.toNat ∈ [0xFEFF, 0xFFFE, 0xFFFF] := by
          simp only [isPrintable, Bool.not_eq_true, Bool.or_eq_false_iff, Bool.and_eq_false_iff,
            decide_eq_false_iff_not, bne_eq_false_iff_eq] at special
          simp only [List.mem_cons, List.not_mem_nil, or_false]
          omega
        have unit : c.toNat ≤ 0xFFFF := by
          simp only [List.mem_cons, List.not_mem_nil, or_false] at few
          omega
        obtain ⟨length, hex, value⟩ := hex_unit c.toNat few
        rw [if_pos unit]
        exact .code (by decide) (by decide) (by rw [length]; rfl) (by omega) hex value

theorem Escape.length_le {e : List Char} (escape : Escape c e) : e.length ≤ 6 := by
  cases escape with
  | code _ _ _ few =>
    simp only [List.length_cons]
    omega
  | _ => simp

end Escapes

section Double

variable {c : Char} {s e r : List Char} {m start : Mark} {fuel : Nat}

theorem toNat_not_surrogate (c : Char) : ¬ (0xD800 ≤ c.toNat ∧ c.toNat < 0xDC00) := by
  have valid : c.toNat < 0xD800 ∨ 0xDFFF < c.toNat := by
    rcases c.valid with low | high
    · exact .inl low
    · exact .inr high.1
  omega

theorem charOfCode_toNat (c : Char) : charOfCode c.toNat = c := by
  have valid : c.toNat.isValidChar := c.valid
  rw [charOfCode, if_pos valid, Char.ofNat_toNat]

theorem joinCode_toNat (c : Char) (s : Cursor) : joinCode c.toNat s = (c, s) := by
  have basic := toNat_not_surrogate c
  unfold joinCode
  rw [if_neg fun h => basic ⟨h.1, h.2.1⟩, charOfCode_toNat]

theorem scanCode_digits {digits : List Char}
    (hex : ∀ d ∈ digits, isHex d = true ∧ isInline d = true) :
    scanCode start digits.length ⟨digits ++ r, m⟩ =
      .ok (hexValueOf digits, ⟨r, m.along digits.length⟩) := by
  have all : digits.takeWhile isHex = digits := by
    simpa using takeWhile_append (fun d mem => (hex d mem).1) (avoids_nil (p := isHex))
  unfold scanCode
  simp only [List.take_left, all, if_pos]
  rw [Cursor.skip_inline fun d mem => (hex d mem).2]

/-- What stands behind a backslash is read in one piece. -/
theorem scanEscape_escape (escape : Escape c ('\\' :: e)) :
    scanEscape start ⟨e ++ r, m⟩ = .ok ([c], ⟨r, m.along e.length⟩) := by
  cases escape with
  | @short e known inline =>
    rw [List.singleton_append, scanEscape]
    simp only [Cursor.peek_cons, known]
    rw [Cursor.next_inline inline]
    rfl
  | visible _ _ backslash => exact absurd rfl backslash
  | @code e digits letter inline length few hex value =>
    rw [List.cons_append, scanEscape]
    simp only [Cursor.peek_cons, letter, length]
    rw [Cursor.next_inline inline, scanCode_digits hex, value]
    simp only [Except.map, joinCode_toNat, Mark.along_along, List.length_cons]
    rw [Nat.add_comm]

theorem not_gap (visible : isVisible c = true) (solid : c ≠ ' ') :
    ¬ (c = ' ' ∨ c = '\t' ∨ Fault.endsLine c = true) := by
  have word : isSpaceOrEnd c = false := by simp [isSpaceOrEnd_of_isVisible visible, solid]
  simpa [isSpaceOrEnd, and_assoc] using word

/-- One character is read from the way in which it was written. -/
theorem scanQuoted_escape (escape : Escape c e) (solid : c ≠ ' ') :
    scanQuoted '"' start (fuel + 1) ⟨e ++ r, m⟩ =
      (scanQuoted '"' start fuel ⟨r, m.along e.length⟩).map fun (t, s) => (c :: t, s) := by
  have backslash : isInline '\\' = true := by decide
  have escaped : ∀ {e}, Escape c ('\\' :: e) →
      scanQuoted '"' start (fuel + 1) ⟨'\\' :: e ++ r, m⟩ =
        (scanQuoted '"' start fuel ⟨r, m.along ('\\' :: e).length⟩).map
          fun (t, s) => (c :: t, s) := by
    intro e escape
    rw [scanQuoted]
    simp only [List.cons_append, Cursor.peek_cons, Cursor.next_inline backslash]
    rw [if_neg (by decide), if_pos (by decide), scanEscape_escape escape]
    rw [Mark.along_along, List.length_cons, Nat.add_comm 1]
    rfl
  cases escape with
  | short known inline => exact escaped (.short known inline)
  | code letter inline length few hex value =>
    exact escaped (.code letter inline length few hex value)
  | visible visible quote backslash =>
    have inline := isInline_of_isVisible visible
    rw [List.singleton_append, scanQuoted]
    simp only [Cursor.peek_cons, Cursor.next_inline inline]
    rw [if_neg quote, if_neg (by simp [backslash]), if_neg (not_gap visible solid)]
    rfl

/-- Spaces are read as they stand in front of anything on the line. -/
theorem scanQuoted_spaces {quote : Char} {n : Nat} (quoted : quote = '"' ∨ quote = '\'')
    (filled : r ≠ []) (next : Avoids isSpaceOrEnd r) :
    scanQuoted quote start (fuel + 1) ⟨List.replicate (n + 1) ' ' ++ r, m⟩ =
      (scanQuoted quote start fuel ⟨r, m.along (n + 1)⟩).map
        fun (t, s) => (List.replicate (n + 1) ' ' ++ t, s) := by
  have blank : Avoids (fun c => c == ' ' || c == '\t') r :=
    next.mono fun c h => by rw [isSpaceOrEnd, h]; rfl
  have line : Avoids Fault.endsLine r := next.mono fun c h => by simp [isSpaceOrEnd, h]
  have other : ' ' ≠ quote := by rcases quoted with rfl | rfl <;> decide
  have span := Cursor.span_spaces (n := n + 1) (m := m) (p := fun c => c == ' ' || c == '\t') rfl
    blank
  have some : r.isEmpty = false := by simpa using filled
  rw [scanQuoted, span]
  simp only [List.replicate_succ, List.cons_append, Cursor.peek_cons]
  rw [if_neg other, if_neg (by simp), if_pos (by simp)]
  simp only [some, Cursor.lineBreak?_avoids line]
  rfl

theorem avoids_escape (escape : Escape c e) (solid : c ≠ ' ') : Avoids isSpaceOrEnd (e ++ r) := by
  cases escape with
  | visible visible => simp [isSpaceOrEnd_of_isVisible visible, solid]
  | _ => simp [isSpaceOrEnd, Fault.endsLine, isBreak]

theorem length_pos_of_escape (escape : Escape c e) : 0 < e.length := by
  cases escape <;> exact Nat.succ_pos _

/-- A text in double quotes is read as it was written. -/
theorem scanQuoted_double (enough : s.length < fuel) :
    scanQuoted '"' start fuel ⟨s.flatMap escapeChar ++ '"' :: r, m⟩ =
      .ok (s, ⟨r, m.along ((s.flatMap escapeChar).length + 1)⟩) := by
  have quote : isInline '"' = true := by decide
  induction fuel generalizing s m with
  | zero => exact absurd enough (Nat.not_lt_zero _)
  | succ fuel ih =>
    obtain ⟨n, t, rfl, front⟩ := exists_spaces s
    rw [List.length_append, List.length_replicate] at enough
    cases n with
    | succ n =>
      have escaped : (List.replicate (n + 1) ' ' ++ t).flatMap escapeChar =
          List.replicate (n + 1) ' ' ++ t.flatMap escapeChar := by
        have space : escapeChar ' ' = [' '] := rfl
        rw [List.flatMap_append, List.flatMap_replicate, space, List.flatten_replicate_singleton]
      have next : Avoids isSpaceOrEnd (t.flatMap escapeChar ++ '"' :: r) := by
        cases t with
        | nil => simp [isSpaceOrEnd, Fault.endsLine, isBreak]
        | cons c t =>
          rw [List.flatMap_cons, List.append_assoc]
          exact avoids_escape (escape_escapeChar c) (by simpa using front)
      rw [escaped, List.append_assoc, scanQuoted_spaces (.inl rfl) (by simp) next,
        ih (by omega), Mark.along_along, List.length_append, List.length_replicate]
      simp only [Except.map, Nat.add_assoc]
    | zero =>
      cases t with
      | nil =>
        rw [scanQuoted]
        simp [Cursor.next_inline quote]
      | cons c t =>
        have solid : c ≠ ' ' := by simpa using front
        rw [List.length_cons] at enough
        rw [List.replicate_zero, List.nil_append, List.flatMap_cons, List.append_assoc,
          scanQuoted_escape (escape_escapeChar c) solid, ih (by omega), Mark.along_along,
          List.length_append, Nat.add_assoc]
        rfl

end Double

section Single

/-- A line break that is written as it is in single quotes. -/
def isRawBreak (c : Char) : Bool := isBreak c && c != '\n'

/-- What a line break counts as in a scalar. -/
def asFeed (c : Char) : Char := if c = '\x85' then '\n' else c

/-- What is read from a text in single quotes: of several line breaks in a row the first one is
dropped, and one alone is a space, unless it is of the kinds that are kept. The flag says that no
line break came right before. -/
def refold (first : Bool) : List Char → List Char
  | [] => []
  | c :: r =>
    if isBreak c then
      if first && asFeed c == '\n' then
        if r.head?.any isBreak then refold false r else ' ' :: refold false r
      else asFeed c :: refold false r
    else c :: refold true r

theorem refold_cons (first : Bool) (c : Char) (r : List Char) : refold first (c :: r) =
    if isBreak c then
      if first && asFeed c == '\n' then
        if r.head?.any isBreak then refold false r else ' ' :: refold false r
      else asFeed c :: refold false r
    else c :: refold true r := rfl

variable {s bs t r : List Char} {m start : Mark} {fuel column : Nat}

/-- A text that can stand in single quotes. -/
structure Single (s : List Char) : Prop where
  each : ∀ c ∈ s, isVisible c = true ∨ isRawBreak c = true
  quote : '\'' ∉ s
  spaces : hasSpaceAtBreak s = false

theorem isBreak_of_isRawBreak {c : Char} (h : isRawBreak c = true) : isBreak c = true :=
  (Bool.and_eq_true_iff.1 h).1

theorem isRawBreak_iff {c : Char} :
    isRawBreak c = true ↔ c = '\x85' ∨ c = '\u2028' ∨ c = '\u2029' := by
  constructor
  · simp only [isRawBreak, isBreak, Bool.and_eq_true, Bool.or_eq_true, beq_iff_eq, bne_iff_ne]
    rintro ⟨((feed | h) | h) | h, other⟩
    · exact absurd feed other
    · exact .inl h
    · exact .inr (.inl h)
    · exact .inr (.inr h)
  · rintro (rfl | rfl | rfl) <;> decide

theorem hasSpaceAtBreak_behind (h : hasSpaceAtBreak (s ++ t) = false) :
    hasSpaceAtBreak t = false := by
  induction s with
  | nil => exact h
  | cons c s ih =>
    refine ih ?_
    cases rest : s ++ t with
    | nil => rfl
    | cons d r =>
      rw [List.cons_append, rest, hasSpaceAtBreak, Bool.or_eq_false_iff] at h
      exact h.2

theorem Single.behind (single : Single (s ++ t)) : Single t where
  each := fun c mem => single.each c (List.mem_append_right s mem)
  quote := fun mem => single.quote (List.mem_append_right s mem)
  spaces := hasSpaceAtBreak_behind single.spaces

/-- A text goes on with something else than a space and a line break. -/
def GoesOn (t : List Char) : Prop := Avoids (fun c => c == ' ' || isBreak c) t

/-- A text in single quotes begins with a run of spaces, with a character or with a run of line
breaks, if there is anything in it. -/
inductive Single.Split : List Char → Prop where
  | nil : Split []
  | spaces (n : Nat) {t : List Char} (rest : Single t) (onward : GoesOn t) :
    Split (List.replicate (n + 1) ' ' ++ t)
  | char {c : Char} {t : List Char} (visible : isVisible c = true) (solid : c ≠ ' ')
    (quote : c ≠ '\'') (rest : Single t) : Split (c :: t)
  | breaks {b : Char} {bs t : List Char} (first : isRawBreak b = true)
    (more : ∀ c ∈ bs, isRawBreak c = true) (rest : Single t) (onward : GoesOn t) :
    Split (b :: (bs ++ t))

/-- Behind a space there is no line break. -/
theorem Single.goesOn_of_space (single : Single (' ' :: t)) (front : t.head? ≠ some ' ') :
    GoesOn t := by
  intro c head
  cases t with
  | nil => cases head
  | cons d t =>
    cases head
    have apart := single.spaces
    simp only [hasSpaceAtBreak, Bool.or_eq_false_iff] at apart
    have noBreak : isBreak c = false := by simpa using apart.1.1
    have solid : c ≠ ' ' := by simpa using front
    simp [noBreak, solid]

/-- Behind a line break there is no space. -/
theorem Single.goesOn_of_break {b : Char} (single : Single (b :: t)) (raw : isBreak b = true)
    (front : Avoids isBreak t) : GoesOn t := by
  intro c head
  cases t with
  | nil => cases head
  | cons d t =>
    cases head
    have apart := single.spaces
    simp only [hasSpaceAtBreak, Bool.or_eq_false_iff] at apart
    have solid : c ≠ ' ' := by simpa [raw] using apart.1.2
    simp [avoids_cons.1 front, solid]

theorem exists_run (p : Char → Bool) (s : List Char) :
    ∃ run t, s = run ++ t ∧ (∀ c ∈ run, p c = true) ∧ Avoids p t := by
  induction s with
  | nil => exact ⟨[], [], rfl, nofun, avoids_nil⟩
  | cons c s ih =>
    cases here : p c with
    | true =>
      obtain ⟨run, t, rfl, all, next⟩ := ih
      exact ⟨c :: run, t, rfl, List.forall_mem_cons.2 ⟨here, all⟩, next⟩
    | false => exact ⟨[], c :: s, rfl, nofun, avoids_cons.2 here⟩

theorem Single.raw {c : Char} (single : Single s) (mem : c ∈ s) (h : isBreak c = true) :
    isRawBreak c = true := by
  rcases single.each c mem with visible | raw
  · simp [isVisible, h] at visible
  · exact raw

theorem Single.split (single : Single s) : Single.Split s := by
  cases s with
  | nil => exact .nil
  | cons c r =>
    by_cases space : c = ' '
    · obtain ⟨n, t, rfl, front⟩ := exists_spaces r
      subst space
      have parts : ' ' :: (List.replicate n ' ' ++ t) = List.replicate n ' ' ++ ' ' :: t := by
        rw [← List.singleton_append, ← List.append_assoc, List.singleton_append,
          ← List.replicate_succ, List.replicate_succ', List.append_assoc, List.singleton_append]
      have last : Single (' ' :: t) := Single.behind (parts ▸ single)
      exact .spaces n (Single.behind (s := [' ']) last) (last.goesOn_of_space front)
    · rcases single.each c List.mem_cons_self with visible | raw
      · have quote : c ≠ '\'' := fun same => single.quote (same ▸ List.mem_cons_self)
        exact .char visible space quote (Single.behind (s := [c]) single)
      · obtain ⟨bs, t, rfl, all, next⟩ := exists_run isBreak r
        have more : ∀ d ∈ bs, isRawBreak d = true := fun d mem =>
          single.raw (List.mem_cons_of_mem c (List.mem_append_left t mem)) (all d mem)
        have rest : Single t := Single.behind (s := c :: bs) single
        refine .breaks raw more rest ?_
        -- The last of the line breaks stands right before the rest.
        obtain ⟨init, l, whole⟩ : ∃ init l, c :: bs = init ++ [l] :=
          ⟨_, _, (List.dropLast_concat_getLast (List.cons_ne_nil c bs)).symm⟩
        have last : isBreak l = true := by
          have mem : l ∈ c :: bs := by simp [whole]
          rcases List.mem_cons.1 mem with rfl | mem
          · exact isBreak_of_isRawBreak raw
          · exact all l mem
        have parts : c :: (bs ++ t) = init ++ l :: t := by
          rw [← List.cons_append, whole, List.append_assoc, List.singleton_append]
        exact (Single.behind (parts ▸ single)).goesOn_of_break last next

theorem refold_breaks (all : ∀ c ∈ bs, isBreak c = true) :
    refold false (bs ++ t) = bs.map asFeed ++ refold false t := by
  induction bs with
  | nil => rfl
  | cons b bs ih =>
    obtain ⟨here, rest⟩ := List.forall_mem_cons.1 all
    rw [List.cons_append, refold_cons, if_pos here, ih rest]
    rfl

/-- The flag does not matter in front of something else than a line break. -/
theorem refold_of_goesOn (onward : Avoids isBreak t) : refold false t = refold true t := by
  cases t with
  | nil => rfl
  | cons c t => simp [refold_cons, avoids_cons.1 onward]

theorem refold_run {b : Char} (here : isBreak b = true) (all : ∀ c ∈ bs, isBreak c = true)
    (onward : Avoids isBreak t) :
    refold true (b :: (bs ++ t)) = folded (asFeed b) (bs.map asFeed) ++ refold true t := by
  rw [refold_cons, if_pos here, refold_breaks all, refold_of_goesOn onward, Bool.true_and, folded]
  by_cases feed : asFeed b = '\n'
  · cases bs with
    | nil =>
      have alone : t.head?.any isBreak = false := by
        cases t with
        | nil => rfl
        | cons c t => simpa using onward
      simp [feed, alone]
    | cons c bs => simp [feed, all c List.mem_cons_self]
  · simp [feed]

theorem ne_quote {b : Char} (here : isRawBreak b = true) : b ≠ '\'' := by
  rintro rfl
  revert here
  decide

theorem singleQuotedRest_cons (column : Nat) (c : Char) (r : List Char) :
    singleQuotedRest column (c :: r) =
      if c = '\'' then '\'' :: '\'' :: singleQuotedRest column r
      else if isBreak c ∧ !(r.head?.any isBreak) then
        c :: (List.replicate column ' ' ++ singleQuotedRest column r)
      else c :: singleQuotedRest column r := rfl

theorem singleQuotedRest_breaks {b : Char} (here : isRawBreak b = true)
    (all : ∀ c ∈ bs, isRawBreak c = true) (onward : Avoids isBreak t) :
    singleQuotedRest column (b :: (bs ++ t)) =
      b :: (bs ++ (List.replicate column ' ' ++ singleQuotedRest column t)) := by
  induction bs generalizing b with
  | nil =>
    have raw := isBreak_of_isRawBreak here
    have alone : t.head?.any isBreak = false := by
      cases t with
      | nil => rfl
      | cons c t => simpa using onward
    simp [singleQuotedRest_cons, ne_quote here, raw, alone]
  | cons c bs ih =>
    obtain ⟨next, rest⟩ := List.forall_mem_cons.1 all
    rw [singleQuotedRest_cons, if_neg (ne_quote here), if_neg (by simp [isBreak_of_isRawBreak next]),
      List.cons_append, ih next rest, List.cons_append]

theorem lineBreak?_raw {b : Char} (here : isRawBreak b = true) :
    (Cursor.mk (b :: r) m).lineBreak? = some (asFeed b, ⟨r, m.below⟩) := by
  rw [← Cursor.next_break (isBreak_of_isRawBreak here)]
  rcases isRawBreak_iff.1 here with rfl | rfl | rfl <;> rfl

theorem not_blank {b : Char} (here : isRawBreak b = true) : (b == ' ' || b == '\t') = false := by
  rcases isRawBreak_iff.1 here with rfl | rfl | rfl <;> decide

theorem scanBreaks_breaks (start : Mark) (column : Nat) (all : ∀ c ∈ bs, isRawBreak c = true)
    (next : Avoids isSpaceOrEnd r) (enough : bs.length < fuel) :
    ∃ m', m.line ≤ m'.line ∧
      scanBreaks start fuel ⟨bs ++ (List.replicate (column + 1) ' ' ++ r), m⟩ =
        .ok (bs.map asFeed, ⟨r, m'⟩) := by
  induction fuel generalizing bs m with
  | zero => exact absurd enough (Nat.not_lt_zero _)
  | succ fuel ih =>
    cases bs with
    | nil =>
      have blank : Avoids (fun c => c == ' ' || c == '\t') r :=
        next.mono fun c h => by rw [isSpaceOrEnd, h]; rfl
      have line : Avoids Fault.endsLine r := next.mono fun c h => by simp [isSpaceOrEnd, h]
      have inside : (Cursor.mk (List.replicate (column + 1) ' ' ++ r) m).atSeparator = false := rfl
      refine ⟨m.along (column + 1), Nat.le_refl _, ?_⟩
      rw [List.nil_append, scanBreaks, inside, if_neg Bool.false_ne_true,
        Cursor.skipWhile_spaces rfl blank]
      simp only [Cursor.lineBreak?_avoids line]
      rfl
    | cons b bs =>
      obtain ⟨here, rest⟩ := List.forall_mem_cons.1 all
      obtain ⟨m', later, more⟩ := ih rest (m := m.below) (Nat.lt_of_succ_lt_succ enough)
      have inside (t : List Char) : (Cursor.mk (b :: t) m).atSeparator = false := by
        rcases isRawBreak_iff.1 here with rfl | rfl | rfl <;> rfl
      refine ⟨m', Nat.le_trans (Nat.le_succ _) later, ?_⟩
      rw [List.cons_append, scanBreaks, inside, if_neg Bool.false_ne_true,
        Cursor.skipWhile_avoids (avoids_cons.2 (not_blank here))]
      simp only [lineBreak?_raw here, more]
      rfl

/-- Line breaks in a row, and the indentation of the line behind them. -/
theorem scanQuoted_breaks (start : Mark) (column fuel : Nat) {b : Char} (here : isRawBreak b = true)
    (all : ∀ c ∈ bs, isRawBreak c = true) (next : Avoids isSpaceOrEnd r) :
    ∃ m', m.line ≤ m'.line ∧
      scanQuoted '\'' start (fuel + 1) ⟨b :: (bs ++ (List.replicate (column + 1) ' ' ++ r)), m⟩ =
        (scanQuoted '\'' start fuel ⟨r, m'⟩).map
          fun (t, s) => (folded (asFeed b) (bs.map asFeed) ++ t, s) := by
  have long : bs.length < (bs ++ (List.replicate (column + 1) ' ' ++ r)).length := by
    simp only [List.length_append, List.length_replicate]
    omega
  obtain ⟨m', later, read⟩ := scanBreaks_breaks start column (m := m.below) all next long
  have line : Fault.endsLine b = true := by simp [Fault.endsLine, isBreak_of_isRawBreak here]
  refine ⟨m', Nat.le_trans (Nat.le_succ _) later, ?_⟩
  rw [scanQuoted]
  simp only [Cursor.peek_cons]
  rw [if_neg (ne_quote here), if_neg (by simp), if_pos (by simp [line]),
    Cursor.span_avoids (avoids_cons.2 (not_blank here))]
  simp only [List.isEmpty_cons, lineBreak?_raw here, read]
  rfl

theorem singleQuotedRest_char {c : Char} (visible : isVisible c = true) (quote : c ≠ '\'') :
    singleQuotedRest column (c :: t) = c :: singleQuotedRest column t := by
  have noBreak : isBreak c = false := by
    simp only [isVisible, Bool.and_eq_true, Bool.not_eq_true'] at visible
    exact visible.2
  rw [singleQuotedRest_cons, if_neg quote, if_neg (by simp [noBreak])]

theorem refold_char {c : Char} (visible : isVisible c = true) (first : Bool) :
    refold first (c :: t) = c :: refold true t := by
  have noBreak : isBreak c = false := by
    simp only [isVisible, Bool.and_eq_true, Bool.not_eq_true'] at visible
    exact visible.2
  simp [refold_cons, noBreak]

theorem isVisible_space : isVisible ' ' = true := by decide

theorem singleQuotedRest_spaces (n : Nat) :
    singleQuotedRest column (List.replicate n ' ' ++ t) =
      List.replicate n ' ' ++ singleQuotedRest column t := by
  induction n with
  | zero => rfl
  | succ n ih =>
    rw [List.replicate_succ, List.cons_append, singleQuotedRest_char isVisible_space (by decide),
      ih, List.cons_append]

theorem refold_spaces (n : Nat) :
    refold true (List.replicate n ' ' ++ t) = List.replicate n ' ' ++ refold true t := by
  induction n with
  | zero => rfl
  | succ n ih =>
    rw [List.replicate_succ, List.cons_append, refold_char isVisible_space, ih, List.cons_append]

theorem singleQuotedRest_ne_nil : singleQuotedRest column s ≠ [] := by
  cases s with
  | nil => exact List.cons_ne_nil _ _
  | cons c s =>
    rw [singleQuotedRest_cons]
    split
    · exact List.cons_ne_nil _ _
    · split <;> exact List.cons_ne_nil _ _

theorem avoids_singleQuotedRest (single : Single t) (onward : GoesOn t) :
    Avoids isSpaceOrEnd (singleQuotedRest column t ++ r) := by
  cases t with
  | nil => simp [singleQuotedRest, isSpaceOrEnd, Fault.endsLine, isBreak]
  | cons c t =>
    obtain ⟨solid, noBreak⟩ : c ≠ ' ' ∧ isBreak c = false := by simpa [GoesOn] using onward
    have visible : isVisible c = true := by
      rcases single.each c List.mem_cons_self with visible | raw
      · exact visible
      · rw [isBreak_of_isRawBreak raw] at noBreak
        cases noBreak
    have quote : c ≠ '\'' := fun same => single.quote (same ▸ List.mem_cons_self)
    rw [singleQuotedRest_char visible quote, List.cons_append, avoids_cons,
      isSpaceOrEnd_of_isVisible visible]
    simpa using solid

/-- A text in single quotes is read folded. -/
theorem scanQuoted_single (start : Mark) (column : Nat) (single : Single s)
    (closed : r.head? ≠ some '\'') (enough : s.length < fuel) :
    ∃ m', m.line ≤ m'.line ∧
      (s.any isBreak = false → m' = m.along (s.length + 1)) ∧
      scanQuoted '\'' start fuel ⟨singleQuotedRest (column + 1) s ++ r, m⟩ =
        .ok (refold true s, ⟨r, m'⟩) := by
  induction fuel generalizing s m with
  | zero => exact absurd enough (Nat.not_lt_zero _)
  | succ fuel ih =>
    have split := single.split
    cases split with
    | nil =>
      have quote : isInline '\'' = true := by decide
      have last : r.headD '\x00' ≠ '\'' := by
        cases r with
        | nil => decide
        | cons c r => simpa using closed
      refine ⟨m.along 1, Nat.le_refl _, fun _ => rfl, ?_⟩
      rw [singleQuotedRest, List.singleton_append, scanQuoted]
      simp only [Cursor.peek_cons, Cursor.peekAt_one]
      rw [if_pos trivial, if_neg fun h => last h.2, Cursor.next_inline quote]
      rfl
    | @spaces n t rest onward =>
      rw [List.length_append, List.length_replicate] at enough
      obtain ⟨m', later, exact_, read⟩ := ih rest (m := m.along (n + 1)) (by omega)
      refine ⟨m', later, fun none => ?_, ?_⟩
      · rw [exact_ (by simp_all), Mark.along_along, List.length_append, List.length_replicate]
        simp only [Nat.add_assoc]
      · rw [singleQuotedRest_spaces, List.append_assoc, scanQuoted_spaces (.inr rfl)
          (by simp [singleQuotedRest_ne_nil]) (avoids_singleQuotedRest rest onward), read,
          refold_spaces]
        rfl
    | @char c t visible solid other rest =>
      obtain ⟨m', later, exact_, read⟩ := ih rest (m := m.along 1) (Nat.lt_of_succ_lt_succ enough)
      refine ⟨m', later, fun none => ?_, ?_⟩
      · rw [exact_ (by simp_all), Mark.along_along, List.length_cons, Nat.add_comm 1]
      · rw [singleQuotedRest_char visible other, List.cons_append, scanQuoted]
        simp only [Cursor.peek_cons, Cursor.next_inline (isInline_of_isVisible visible)]
        rw [if_neg other, if_neg (by simp), if_neg (not_gap visible solid), read,
          refold_char visible]
        rfl
    | @breaks b bs t first more rest onward =>
      have raw : ∀ c ∈ bs, isBreak c = true := fun c mem => isBreak_of_isRawBreak (more c mem)
      have next : Avoids isBreak t := onward.mono fun c h => by simp [h]
      have behind : Avoids isSpaceOrEnd (singleQuotedRest (column + 1) t ++ r) :=
        avoids_singleQuotedRest rest onward
      rw [List.length_cons, List.length_append] at enough
      obtain ⟨m₁, later, broken⟩ :=
        scanQuoted_breaks start column fuel (m := m) first more behind
      obtain ⟨m₂, last, -, read⟩ := ih rest (m := m₁) (by omega)
      refine ⟨m₂, Nat.le_trans later last, fun none => ?_, ?_⟩
      · simp [isBreak_of_isRawBreak first] at none
      · rw [singleQuotedRest_breaks first more next, List.cons_append, List.append_assoc,
          List.append_assoc, broken, read, refold_run (isBreak_of_isRawBreak first) raw next]
        rfl

end Single

end HostPlan.Yaml
