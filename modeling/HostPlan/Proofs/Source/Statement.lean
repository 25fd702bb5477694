import HostPlan.Proofs.Source.Argument
import HostPlan.Source.Chain
/-!
Statements as a program writes them: an optional variable, an object, a factory method and further
calls. A statement in its normal form is a statement again, with blanks around its arguments and
single spaces in its types, and it has that form wherever it stands.
-/
namespace HostPlan.Source

open Text

structure CallText where
  method : List Char
  types : Option (List Char) := none
  args : List (List Char) := []

structure Statement where
  boundTo : Option (List Char) := none
  base : List Char
  root : CallText
  calls : List CallText := []

def spellTypes : Option (List Char) → List Char
  | none => []
  | some t => '<' :: (t ++ ['>'])

/-- The call with this text between its arguments. -/
def CallText.spell (comma : List Char) (c : CallText) : List Char :=
  c.method ++ (spellTypes c.types ++ '(' :: (comma.intercalate c.args ++ [')']))

def spellBinding : Option (List Char) → List Char
  | none => []
  | some v => ['v', 'a', 'r', ' '] ++ v ++ [' ', '=', ' ']

def Statement.spell (comma : List Char) (s : Statement) : List Char :=
  spellBinding s.boundTo ++ (s.base ++ '.' :: (s.root.spell comma ++
    (s.calls.flatMap (fun c => '.' :: c.spell comma) ++ [';'])))

/-- A program with one statement on each line. -/
def program (statements : List Statement) : List Char :=
  ['\n'].intercalate (statements.map (Statement.spell [',', ' ']))

/-- A word of at least one character. -/
structure Name (w : List Char) : Prop where
  filled : w ≠ []
  word : Word w

theorem Name.cons {w : List Char} (hw : Name w) (s : List Char) :
    ∃ c r, isWord c = true ∧ w ++ s = c :: r := by
  obtain ⟨c, w, rfl⟩ := List.exists_cons_of_ne_nil hw.filled
  exact ⟨c, w ++ s, hw.word c List.mem_cons_self, rfl⟩

/-- The angle brackets of the text close themselves and those that are open before it. -/
def Angled : Nat → List Char → Prop
  | k, [] => k = 0
  | k, c :: r =>
    if c = '<' then Angled (k + 1) r
    else if c = '>' then 0 < k ∧ Angled (k - 1) r
    else Angled k r

structure TypeText (t : List Char) : Prop where
  simple : ∀ c ∈ t, isWord c = true ∨ c ∈ ['.', ',', '?', '[', ']', '<', '>', ' ']
  angled : Angled 0 t

structure CallText.WellFormed (c : CallText) : Prop where
  method : Name c.method
  types : ∀ t, c.types = some t → TypeText t
  args : ∀ a ∈ c.args, ArgumentText a

structure Statement.WellFormed (s : Statement) : Prop where
  boundTo : ∀ v, s.boundTo = some v → Name v
  base : Name s.base
  factory : ∃ w, Name w ∧ s.root.method = factoryStem ++ w
  root : s.root.WellFormed
  calls : ∀ c ∈ s.calls, c.WellFormed

section Decidability

instance : DecidablePred Name := fun w =>
  decidable_of_iff (w ≠ [] ∧ Word w) ⟨fun h => ⟨h.1, h.2⟩, fun h => ⟨h.filled, h.word⟩⟩

instance decidableAngled : (k : Nat) → (t : List Char) → Decidable (Angled k t)
  | k, [] => inferInstanceAs (Decidable (k = 0))
  | k, c :: r =>
    have := decidableAngled (k + 1) r
    have := decidableAngled (k - 1) r
    have := decidableAngled k r
    inferInstanceAs (Decidable (if c = '<' then Angled (k + 1) r
      else if c = '>' then 0 < k ∧ Angled (k - 1) r else Angled k r))

instance : DecidablePred TypeText := fun t =>
  have := List.decidableBAll
    (fun c => isWord c = true ∨ c ∈ ['.', ',', '?', '[', ']', '<', '>', ' ']) t
  decidable_of_iff ((∀ c ∈ t, isWord c = true ∨ c ∈ ['.', ',', '?', '[', ']', '<', '>', ' ']) ∧
    Angled 0 t) ⟨fun h => ⟨h.1, h.2⟩, fun h => ⟨h.simple, h.angled⟩⟩

instance : DecidablePred CallText.WellFormed := fun c =>
  decidable_of_iff (Name c.method ∧ (∀ t ∈ c.types, TypeText t) ∧ ∀ a ∈ c.args, ArgumentText a)
    ⟨fun h => ⟨h.1, h.2.1, h.2.2⟩, fun h => ⟨h.method, h.types, h.args⟩⟩

instance : DecidablePred Statement.WellFormed := fun s =>
  decidable_of_iff ((∀ v ∈ s.boundTo, Name v) ∧ Name s.base ∧
      (Name (s.root.method.drop 3) ∧ s.root.method = factoryStem ++ s.root.method.drop 3) ∧
      s.root.WellFormed ∧ ∀ c ∈ s.calls, c.WellFormed) (by
    constructor
    · intro ⟨boundTo, base, factory, root, calls⟩
      exact ⟨boundTo, base, ⟨_, factory⟩, root, calls⟩
    · intro h
      obtain ⟨w, hw, method⟩ := h.factory
      have rest : s.root.method.drop 3 = w := by rw [method]; rfl
      exact ⟨h.boundTo, h.base, ⟨rest ▸ hw, rest ▸ method⟩, h.root, h.calls⟩)

end Decidability

section Laid

/-- The call in its normal form, whose arguments have a comma alone between them. -/
def CallText.laid (c : CallText) : CallText where
  method := c.method
  types := c.types.map (collapse false)
  args :=
    match c.args with
    | [] => []
    | a :: r => relaid a :: r.map fun b => relaid (' ' :: b)

def Statement.laid (s : Statement) : Statement where
  boundTo := s.boundTo
  base := s.base
  root := s.root.laid
  calls := s.calls.map CallText.laid

end Laid

theorem solid_of_isWord {c : Char} (h : isWord c = true) : Solid c where
  shown := isBlank_of_isWord h
  neutral := by
    constructor
    · exact isQuote_of_isWord h
    · cases hq : isCommentSign c with
      | false => rfl
      | true =>
        simp only [isCommentSign, Bool.or_eq_true, beq_iff_eq] at hq
        rcases hq with rfl | rfl <;> cases h
  unsigned := by
    intro sign
    simp only [List.mem_cons, List.not_mem_nil, or_false] at sign
    rcases sign with rfl | rfl | rfl | rfl <;> cases h

/-- Whatever follows the first text, it is laid out as the second one and what follows is laid out on
its own. -/
structure Settles (s t : List Char) : Prop where
  laid : ∀ r, relaid (s ++ r) = t ++ relaid r
  afresh : ∀ r, Mode.code.after (s ++ r) = Mode.code.after r

namespace Settles

variable {s t s' t' : List Char}

theorem nil : Settles [] [] := ⟨fun _ => rfl, fun _ => rfl⟩

theorem append (h : Settles s t) (h' : Settles s' t') : Settles (s ++ s') (t ++ t') where
  laid r := by rw [List.append_assoc, h.laid, h'.laid, List.append_assoc]
  afresh r := by rw [List.append_assoc, h.afresh, h'.afresh]

/-- A solid character settles the text before it. -/
theorem solid {c : Char} (laid : relaid s = t) (plain : (Mode.code.after s).IsPlain) (hc : Solid c) :
    Settles (s ++ [c]) (t ++ [c]) where
  laid r := by
    rw [List.append_assoc, List.singleton_append, relaid_append_cons hc plain, laid,
      List.append_assoc]
    rfl
  afresh r := by
    rw [List.append_assoc, List.singleton_append, Mode.after_append_neutral hc.neutral plain]

theorem of_solid {c : Char} (hc : Solid c) : Settles [c] [c] :=
  solid (s := []) relaid_nil (.inl rfl) hc

theorem word {w : List Char} (hw : Word w) : Settles w w := by
  induction w with
  | nil => exact nil
  | cons c w ih =>
    obtain ⟨head, tail⟩ := List.forall_mem_cons.1 hw
    exact (of_solid (solid_of_isWord head)).append (ih tail)

theorem before_word {w : List Char} (laid : relaid s = t) (plain : (Mode.code.after s).IsPlain)
    (hw : Name w) : Settles (s ++ w) (t ++ w) := by
  obtain ⟨c, w, rfl⟩ := List.exists_cons_of_ne_nil hw.filled
  obtain ⟨head, tail⟩ := List.forall_mem_cons.1 hw.word
  rw [List.append_cons, List.append_cons t]
  exact (solid laid plain (solid_of_isWord head)).append (word tail)

theorem relaid_eq (h : Settles s t) : relaid s = t := by
  have alone := h.laid []
  rwa [List.append_nil, relaid_nil, List.append_nil] at alone

theorem after_eq (h : Settles s t) : Mode.code.after s = .code := by
  have alone := h.afresh []
  rwa [List.append_nil] at alone

end Settles

section Types

variable {t : List Char}

theorem angled_collapse {k : Nat} {f : Bool} (h : Angled k t) : Angled k (collapse f t) := by
  induction t generalizing k f with
  | nil => exact h
  | cons c t ih =>
    rw [collapse_cons]
    split
    · rename_i blank
      have other : c ≠ '<' ∧ c ≠ '>' := by
        constructor <;> (rintro rfl; cases blank)
      rw [Angled, if_neg other.1, if_neg other.2] at h
      split
      · exact ih h
      · exact ih h
    · rw [Angled] at h ⊢
      split
      · rename_i opens
        rw [if_pos opens] at h
        exact ih h
      · rename_i opens
        rw [if_neg opens] at h
        split
        · rename_i closes
          rw [if_pos closes] at h
          exact ⟨h.1, ih h.2⟩
        · rename_i closes
          rw [if_neg closes] at h
          exact ih h

theorem TypeText.collapsed (h : TypeText t) : TypeText (collapse false t) where
  simple c hc := by
    rcases mem_collapse hc with rfl | hc
    · exact .inr (by decide)
    · exact h.simple c hc
  angled := angled_collapse h.angled

/-- Over such a text the search for the closing angle bracket goes on. -/
theorem afterTypeArguments_append {k : Nat} (h : Angled k t)
    (simple : ∀ c ∈ t, c ≠ '(' ∧ c ≠ ')' ∧ c ≠ ';') (r : List Char) :
    afterTypeArguments (k + 1) (t ++ r) = afterTypeArguments 1 r := by
  induction t generalizing k with
  | nil =>
    obtain rfl : k = 0 := h
    rfl
  | cons c t ih =>
    obtain ⟨head, tail⟩ := List.forall_mem_cons.1 simple
    rw [Angled] at h
    rw [List.cons_append, afterTypeArguments]
    split at h
    · rename_i opens
      rw [if_pos opens]
      exact ih h tail
    · rename_i opens
      rw [if_neg opens]
      split at h
      · rename_i closes
        have less : k + 1 - 1 = k - 1 + 1 := by have := h.1; omega
        rw [if_pos closes, if_neg (by have := h.1; omega), less]
        exact ih h.2 tail
      · rename_i closes
        rw [if_neg closes, if_neg (by simp [head])]
        exact ih h tail

/-- Code without signs and comments is laid out by its blanks alone. -/
theorem relaid_eq_collapse (plain : Unquoted t) (unsigned : '=' ∉ t) (slash : '/' ∉ t)
    (unbroken : '\r' ∉ t) : relaid t = collapse false t := by
  have same : Mode.code.uncommented t = t := (Uncommented.of_not_mem slash).uncommented_eq
  have unsigned' : '=' ∉ collapse false t := by
    intro h
    rcases mem_collapse h with h | h
    · cases h
    · exact unsigned h
  rw [relaid, unifyBreaks_eq_self unbroken, same, tidy_code plain, normalCode_eq, spaceArrows,
    cutArrows_of_not_mem unsigned']
  change spaceAssignments (collapse false t) = _
  rw [spaceAssignments, cutAssignments_of_not_mem none unsigned']
  rfl

theorem TypeText.apart (h : TypeText t) {c : Char} (hc : c ∈ t) {d : Char}
    (other : isWord d = false) (free : d ∉ ['.', ',', '?', '[', ']', '<', '>', ' ']) : c ≠ d := by
  rintro rfl
  rcases h.simple c hc with word | sign
  · rw [other] at word
    cases word
  · exact free sign

theorem TypeText.not_mem (h : TypeText t) {d : Char} (other : isWord d = false)
    (free : d ∉ ['.', ',', '?', '[', ']', '<', '>', ' ']) : d ∉ '<' :: (t ++ ['>']) := by
  intro hd
  rcases List.mem_cons.1 hd with hd | hd
  · exact free (by rw [hd]; decide)
  · rcases List.mem_append.1 hd with hd | hd
    · exact h.apart hd other free rfl
    · exact free (by rw [List.mem_singleton.1 hd]; decide)

theorem TypeText.unquoted (h : TypeText t) : Unquoted ('<' :: (t ++ ['>'])) := by
  intro c hc
  cases hq : isQuote c with
  | false => rfl
  | true =>
    simp only [isQuote, Bool.or_eq_true, beq_iff_eq] at hq
    rcases hq with rfl | rfl
    · exact absurd hc (h.not_mem (by decide) (by decide))
    · exact absurd hc (h.not_mem (by decide) (by decide))

theorem TypeText.settles (h : TypeText t) :
    Settles ('<' :: (t ++ ['>']) ++ ['(']) ('<' :: (collapse false t ++ ['>']) ++ ['(']) := by
  have slash := h.not_mem (d := '/') (by decide) (by decide)
  refine .solid ?_ ?_ (by decide)
  · rw [relaid_eq_collapse h.unquoted (h.not_mem (by decide) (by decide)) slash
      (h.not_mem (by decide) (by decide))]
    have front := collapse_append_cons (c := '<') (by decide) false [] (t ++ ['>'])
    have back := collapse_append_cons (c := '>') (by decide) false t []
    rw [List.nil_append] at front
    rw [front, back]
    rfl
  · rw [(Uncommented.of_not_mem slash).standsAt.isPlain_iff, Place.after_code h.unquoted]

end Types

section Layout

/-- The arguments of a call, and the parenthesis behind them. -/
theorem settles_arguments {a : List Char} {r : List (List Char)} {l : List Char}
    (space : l = [] ∨ l = [' ']) (ha : ArgumentText a) (hr : ∀ b ∈ r, ArgumentText b) :
    Settles (l ++ [',', ' '].intercalate (a :: r) ++ [')'])
      ([','].intercalate (relaid (l ++ a) :: r.map fun b => relaid (' ' :: b)) ++ [')']) := by
  have plain : (Mode.code.after (l ++ a)).IsPlain := by
    rcases space with rfl | rfl <;> exact ha.plain
  induction r generalizing l a with
  | nil =>
    simp only [List.map_nil, List.intercalate_singleton]
    exact .solid rfl plain (by decide)
  | cons b r ih =>
    obtain ⟨hb, hr⟩ := List.forall_mem_cons.1 hr
    have first : Settles (l ++ a ++ [',']) (relaid (l ++ a) ++ [',']) :=
      .solid rfl plain (by decide)
    have whole := first.append (ih (l := [' ']) (.inr rfl) hb hr hb.plain)
    simpa [List.intercalate_cons_cons] using whole

theorem CallText.WellFormed.settles {c : CallText} (h : c.WellFormed) :
    Settles (c.spell [',', ' ']) (c.laid.spell [',']) := by
  have types : Settles (spellTypes c.types ++ ['(']) (spellTypes c.laid.types ++ ['(']) := by
    rw [laid]
    cases ht : c.types with
    | none => exact .of_solid (by decide)
    | some t => exact (h.types t ht).settles
  have args : Settles ([',', ' '].intercalate c.args ++ [')'])
      ([','].intercalate c.laid.args ++ [')']) := by
    have each := h.args
    rw [laid]
    cases hargs : c.args with
    | nil => exact .of_solid (by decide)
    | cons a r =>
      rw [hargs] at each
      obtain ⟨ha, hr⟩ := List.forall_mem_cons.1 each
      exact settles_arguments (.inl rfl) ha hr
  have whole := (Settles.word h.method.word).append (types.append args)
  simpa [spell, laid] using whole

theorem settles_calls {calls : List CallText} (h : ∀ c ∈ calls, c.WellFormed) :
    Settles (calls.flatMap fun c => '.' :: c.spell [',', ' '])
      ((calls.map CallText.laid).flatMap fun c => '.' :: c.spell [',']) := by
  induction calls with
  | nil => exact .nil
  | cons c calls ih =>
    obtain ⟨head, tail⟩ := List.forall_mem_cons.1 h
    have dot : Settles ['.'] ['.'] := .of_solid (by decide)
    have whole := (dot.append head.settles).append (ih tail)
    simpa using whole

/-- A statement behind a line break or at the start of a program. -/
theorem Statement.WellFormed.settles {s : Statement} (h : s.WellFormed) {l t : List Char}
    (laid : relaid l = t) (plain : (Mode.code.after l).IsPlain) :
    Settles (l ++ s.spell [',', ' ']) (t ++ s.laid.spell [',']) := by
  have head : Settles (l ++ (spellBinding s.boundTo ++ s.base))
      (t ++ (spellBinding s.boundTo ++ s.base)) := by
    cases hv : s.boundTo with
    | none => exact .before_word laid plain h.base
    | some v =>
      have hvar : Name ['v', 'a', 'r'] := ⟨by decide, by decide⟩
      have keyword : Settles (l ++ ['v', 'a', 'r']) (t ++ ['v', 'a', 'r']) :=
        .before_word laid plain hvar
      have name : Settles ([' '] ++ v) ([' '] ++ v) :=
        .before_word rfl (.inl rfl) (h.boundTo v hv)
      have base : Settles ([' ', '=', ' '] ++ s.base) ([' ', '=', ' '] ++ s.base) :=
        .before_word rfl (.inl rfl) h.base
      have whole := (keyword.append name).append base
      simpa [spellBinding] using whole
  have dot : Settles ['.'] ['.'] := .of_solid (by decide)
  have stop : Settles [';'] [';'] := .of_solid (by decide)
  have tail := (dot.append h.root.settles).append ((settles_calls h.calls).append stop)
  have whole := head.append tail
  simpa [spell, Statement.laid] using whole

/-- A program is laid out statement by statement, with spaces for line breaks. -/
theorem settles_program {s : Statement} {statements : List Statement} (head : s.WellFormed)
    (tail : ∀ r ∈ statements, r.WellFormed) {l t : List Char} (laid : relaid l = t)
    (plain : (Mode.code.after l).IsPlain) :
    Settles (l ++ program (s :: statements))
      (t ++ [' '].intercalate ((s :: statements).map fun r => r.laid.spell [','])) := by
  induction statements generalizing s l t with
  | nil =>
    have whole := head.settles laid plain
    simpa [program] using whole
  | cons r statements ih =>
    obtain ⟨next, others⟩ := List.forall_mem_cons.1 tail
    have rest := ih next others (l := ['\n']) (t := [' ']) rfl (.inl rfl)
    have whole := (head.settles laid plain).append rest
    simpa [program, List.intercalate_cons_cons] using whole

end Layout

end HostPlan.Source
