import HostPlan.Proofs.Data.Yaml.Step
/-!
The tokens of a printed node. Remarks leave no trace in them, as long as each stays on its line.
-/
namespace HostPlan.Yaml

mutual

/-- The remarks in a node. -/
def Node.notes : Node → List String
  | .leaf _ => []
  | .list items => itemNotes items
  | .record fields => fieldNotes fields

def itemNotes : List Node → List String
  | [] => []
  | n :: ns => n.notes ++ itemNotes ns

def fieldNotes : List (String × Option String × Node) → List String
  | [] => []
  | (_, note, n) :: fs => note.toList ++ n.notes ++ fieldNotes fs

end

mutual

/-- What a node stands for among the tokens. -/
def Node.tokens : Node → List Token
  | .leaf v => scalarTokens v
  | .list [] => [.openList, .closeList]
  | .list (n :: ns) => .blockSequence :: (itemTokens (n :: ns) ++ [.blockEnd])
  | .record [] => [.openRecord, .closeRecord]
  | .record (f :: fs) => .blockMapping :: (fieldTokens (f :: fs) ++ [.blockEnd])

def itemTokens : List Node → List Token
  | [] => []
  | n :: ns => .blockEntry :: (n.tokens ++ itemTokens ns)

def fieldTokens : List (String × Option String × Node) → List Token
  | [] => []
  | (k, _, n) :: fs => .key :: textToken k.toList :: .value :: (n.tokens ++ fieldTokens fs)

end

/-- A remark that stays on its line. -/
def Whole (note : String) : Prop := ∀ c ∈ note.toList, Fault.endsLine c = false

instance (note : String) : Decidable (Whole note) :=
  List.decidableBAll (fun c => Fault.endsLine c = false) note.toList

theorem remark_printRemark {note : Option String} (whole : ∀ s ∈ note.toList, Whole s) :
    Lexer.Remark (printRemark note) := by
  cases note with
  | none => exact .none
  | some s =>
    have line : Whole s := whole s (by simp)
    have marked : ∃ t, (∀ c ∈ t, Fault.endsLine c = false) ∧
        printRemark (some s) = ' ' :: ' ' ::
          (if ('#' :: t).getLast? = some '\n' then ('#' :: t).dropLast else '#' :: t) := by
      by_cases sign : ∃ r, s.toList = '#' :: r
      · obtain ⟨r, shape⟩ := sign
        refine ⟨r, fun c mem => line c (by simp [shape, mem]), ?_⟩
        simp only [printRemark, shape]
      · refine ⟨' ' :: s.toList, List.forall_mem_cons.2 ⟨by decide, line⟩, ?_⟩
        simp only [printRemark]
        split
        · rename_i r shape
          exact absurd ⟨r, shape⟩ sign
        · rfl
    obtain ⟨t, kept, shape⟩ := marked
    have noFeed : ¬ ('#' :: t).getLast? = some '\n' := by
      intro last
      rcases List.mem_cons.1 (List.mem_of_getLast? last) with sign | mem
      · cases sign
      · exact absurd (kept _ mem) (by decide)
    rw [shape, if_neg noFeed]
    exact .some kept

section Texts

variable {r : List Char}

theorem gap_printBehind (a b : Nat) (note : Option String) (n : Node) (r : List Char) :
    isSpaceOrEnd ((printBehind a b note n ++ r).headD '\x00') = true := by
  have remark (note : Option String) (r : List Char) :
      isSpaceOrEnd ((printRemark note ++ '\n' :: r).headD '\x00') = true := by
    cases note <;> rfl
  cases n with
  | leaf v =>
    cases v with
    | null => simpa [printBehind] using remark note r
    | _ => rfl
  | list items =>
    cases items with
    | nil => rfl
    | cons n ns => simpa [printBehind] using remark note (printItems (a - 2) (n :: ns) ++ r)
  | record fields =>
    cases fields with
    | nil => rfl
    | cons f fs => simpa [printBehind] using remark note (printFields a (f :: fs) ++ r)

theorem spelling_key (column : Nat) (key : String) :
    Spelling false (printText (column + 2) key.toList) (textToken key.toList) :=
  spelling_printText (column + 1) nofun

theorem opens_printKey (column : Nat) (key : String) (r : List Char) :
    Opens (printKey column key ++ r) := by
  unfold printKey
  split
  · rw [List.append_assoc]
    exact (spelling_key column key).opens (by simp) (by simp)
  · exact opens_sign (by decide)

theorem inline_printKey (column : Nat) (key : String) (r : List Char) :
    ∃ c w, printKey column key ++ r = c :: w ∧ isInline c = true := by
  unfold printKey
  split
  · obtain ⟨c, w, shape, inline⟩ := (spelling_key column key).inline
    exact ⟨c, _, by rw [shape]; rfl, inline⟩
  · exact ⟨'?', _, rfl, by decide⟩

/-- What stands behind the dash of an item. -/
def itemText (column : Nat) : Node → List Char
  | .record ((k, note, n) :: fs) =>
    ' ' :: (printKey (column + 4) k ++ (printBehind (column + 6) (column + 6) note n ++
      printFields (column + 4) fs))
  | n => printBehind (column + 4) (column + 4) none n

theorem printItems_cons (column : Nat) (n : Node) (ns : List Node) :
    printItems column (n :: ns) =
      List.replicate (column + 2) ' ' ++ '-' :: (itemText column n ++ printItems column ns) := by
  match n with
  | .leaf v => simp [printItems, itemText]
  | .list items => simp [printItems, itemText]
  | .record [] => simp [printItems, itemText]
  | .record (f :: fs) => simp [printItems, itemText]

theorem gap_itemText (column : Nat) (n : Node) (r : List Char) :
    isSpaceOrEnd ((itemText column n ++ r).headD '\x00') = true := by
  unfold itemText
  split
  · rfl
  · exact gap_printBehind _ _ _ _ _

end Texts

namespace Lexer

namespace Stack

variable {k : Stack} {column : Nat} {t : Token}

theorem enter_of_open (opened : k.depth = column + 1) : k.enter column t = k :=
  if_neg (by omega)

theorem enter_push {ts : List Token} (opened : k.depth = column + 1) :
    (k.push ts).enter column t = k.push ts := enter_of_open opened

theorem enter_of_lt (outer : k.depth < column + 1) :
    k.enter column t = ⟨k.tokens ++ [t], column + 1, k.depth :: k.outer⟩ := if_pos outer

theorem depth_enter (outer : k.depth ≤ column + 1) : (k.enter column t).depth = column + 1 := by
  unfold enter
  split
  · rfl
  · omega

end Stack

section Lines

variable {s t u : Lexer} {k : Stack} {allowed : Bool} {column n least : Nat}
  {text rest gap body : List Char}

/-- A text that begins on a line of its own, indented less than some columns. -/
def Shallow (least : Nat) (text : List Char) : Prop :=
  ∃ n body, text = List.replicate n ' ' ++ body ∧ Opens body ∧ n < least

/-- The lexer settles in front of a text that begins on a line of its own. -/
def Faces (s : Lexer) (k : Stack) (text : List Char) : Prop :=
  ∃ n body, text = List.replicate n ' ' ++ body ∧ Opens body ∧ Reaches s k true n body

/-- The indentation of a text is its own. -/
theorem indent_unique {m : Nat} {other : List Char} (fresh : Fresh body) (fresh' : Fresh other)
    (same : List.replicate n ' ' ++ body = List.replicate m ' ' ++ other) :
    n = m ∧ body = other := by
  have none (j : Nat) {a b : List Char} (freshA : Fresh a) (same : a = List.replicate j ' ' ++ b) :
      j = 0 := by
    cases j with
    | zero => rfl
    | succ j => exact absurd (fresh_cons.1 (same ▸ freshA)).1 (by decide)
  induction n generalizing m with
  | zero =>
    obtain rfl := none m fresh same
    exact ⟨rfl, same⟩
  | succ n ih =>
    cases m with
    | zero => cases none (n + 1) fresh' same.symm
    | succ m =>
      obtain ⟨rfl, rfl⟩ := ih (List.cons.inj same).2
      exact ⟨rfl, rfl⟩

theorem Faces.reaches (faces : Faces s k (List.replicate n ' ' ++ body)) (fresh : Fresh body) :
    Reaches s k true n body := by
  obtain ⟨m, other, same, opens, reaches⟩ := faces
  obtain ⟨rfl, rfl⟩ := indent_unique fresh opens.fresh same
  exact reaches

/-- Behind the last line of a block the block is over. -/
theorem Faces.pop {ts : List Token} {depth o : Nat} {outer : List Nat}
    (faces : Faces s ⟨ts, depth + 1, o :: outer⟩ text) (shallow : Shallow depth text) :
    Faces s ⟨ts ++ [.blockEnd], o, outer⟩ text := by
  obtain ⟨n, body, rfl, opens, less⟩ := shallow
  have reaches := faces.reaches opens.fresh
  refine ⟨n, body, rfl, opens, ?_⟩
  rwa [Reaches, Stack.close_inner (by omega)] at reaches

theorem At.line (here : At s k allowed column (gap ++ '\n' :: text)) (isGap : Gap gap)
    (shallow : Shallow least text) : Faces s k text := by
  obtain ⟨n, body, rfl, opens, -⟩ := shallow
  refine ⟨n, body, rfl, opens, reaches_line here.toHolds ?_ isGap opens.fresh here.cursor⟩
  intro key mem
  rw [here.keys] at mem
  cases mem

theorem At.further (here : At s k allowed column (' ' :: text)) (fresh : Fresh text) :
    Reaches s k allowed (column + 1) text := by
  have reaches := reaches_here (n := 1) here.toHolds (m := s.mark)
    (fun key mem => by rw [here.keys] at mem; cases mem) fresh here.cursor
  rwa [here.column, here.allowed] at reaches

end Lines

section Layout

variable {s u : Lexer} {k : Stack} {allowed : Bool} {column c f : Nat} {r rest : List Char}
  {key : String} {note : Option String} {n : Node} {ns : List Node}
  {fs : List (String × Option String × Node)}

/-- The key of a field, up to its colon. -/
theorem Reaches.field (reaches : Reaches s k true column (printKey column key ++ r))
    (outer : k.depth ≤ column + 1) (gap : isSpaceOrEnd (r.headD '\x00') = true) :
    ∃ u allowed c, column ≤ c ∧ Leads s u ∧
      At u ((k.enter column .blockMapping).push [.key, textToken key.toList, .value])
        allowed c r := by
  by_cases simple : isSimpleKey key.toList = true
  · have flat : key.toList.any isBreak = false := by
      simp only [isSimpleKey, Bool.and_eq_true, Bool.not_eq_true'] at simple
      exact simple.2
    rw [printKey, if_pos simple, List.append_assoc] at reaches
    obtain ⟨u, c, right, leads, here⟩ := reaches.key
      (spelling_printText (column + 1) fun _ => flat) (length_printText_le _ simple) outer gap
    exact ⟨u, false, c, right, leads, here⟩
  · rw [printKey, if_neg simple] at reaches
    let text := printText (column + 2) key.toList
    let below := List.replicate column ' ' ++ ':' :: r
    have parts : '?' :: ' ' :: (text ++ '\n' :: List.replicate column ' ' ++ [':']) ++ r =
        '?' :: ' ' :: (text ++ ([] ++ '\n' :: below)) := by simp [below]
    rw [parts] at reaches
    have spelling := spelling_key column key
    have depth : (k.enter column .blockMapping).depth = column + 1 := Stack.depth_enter outer
    obtain ⟨u₁, asks, here₁⟩ := reaches.question outer rfl
    have reaches₁ := here₁.further (spelling.opens (by simp) (by simp)).fresh
    obtain ⟨u₂, reads, reaches₂⟩ := reaches₁.scalar spelling .none
      (by rw [Stack.depth_push, depth]; omega) (opens_sign (by decide))
      (by rw [Stack.depth_push, depth]; omega)
    have depth₂ : (((k.enter column .blockMapping).push [.key]).push
        [textToken key.toList]).depth = column + 1 := depth
    obtain ⟨u₃, ends, here₃⟩ := reaches₂.colon (Nat.le_of_eq depth₂) gap
    rw [Stack.enter_of_open depth₂, Stack.push_push, Stack.push_push] at here₃
    exact ⟨u₃, true, column + 1, Nat.le_succ _, asks.trans (reads.trans ends), here₃⟩

theorem Shallow.mono {least more : Nat} {text : List Char} (shallow : Shallow least text)
    (le : least ≤ more) : Shallow more text := by
  obtain ⟨n, body, parts, opens, less⟩ := shallow
  exact ⟨n, body, parts, opens, Nat.lt_of_lt_of_le less le⟩

theorem shallow_items (ns : List Node) (shallow : Shallow (column + 3) rest) :
    Shallow (column + 3) (printItems column ns ++ rest) := by
  cases ns with
  | nil => exact shallow
  | cons n ns =>
    rw [printItems_cons, List.append_assoc, List.cons_append, List.append_assoc]
    exact ⟨column + 2, _, rfl, opens_dash (gap_itemText column n _), Nat.lt_succ_self _⟩

theorem shallow_fields (fs : List (String × Option String × Node))
    (shallow : Shallow (column + 1) rest) :
    Shallow (column + 1) (printFields column fs ++ rest) := by
  match fs with
  | [] => exact shallow
  | (key, note, n) :: fs =>
    rw [printFields, List.append_assoc, List.append_assoc, List.append_assoc]
    exact ⟨column, _, rfl, opens_printKey column key _, Nat.lt_succ_self _⟩

theorem Faces.leave {t : Token} {ts : List Token}
    (faces : Faces s ((k.enter column t).push ts) rest) (outer : k.depth < column + 1)
    (shallow : Shallow column rest) : Faces s (k.push (t :: (ts ++ [.blockEnd]))) rest := by
  rw [Stack.enter_of_lt outer] at faces
  have popped := faces.pop shallow
  simpa [Stack.push] using popped

mutual

/-- From behind a colon or a dash the lexer reads the tokens of a node. -/
theorem leads_behind (n : Node) {s : Lexer} {k : Stack} {allowed : Bool} {c f : Nat}
    {note : Option String} {rest : List Char}
    (here : At s k allowed c (printBehind (f + 2) (f + 2) note n ++ rest))
    (whole : ∀ s ∈ note.toList ++ n.notes, Whole s) (outer : k.depth ≤ f + 2)
    (deep : k.depth ≤ c + 1) (shallow : Shallow k.depth rest) :
    ∃ u, Leads s u ∧ Faces u (k.push n.tokens) rest := by
  have remark := remark_printRemark fun s mem => whole s (List.mem_append_left _ mem)
  match n with
  | .leaf v =>
    rcases spelling_printScalar (f + 1) v with rfl | ⟨tok, tokens, spelling⟩
    · rw [printBehind, List.append_assoc] at here
      exact ⟨s, .refl s, by simpa [Node.tokens, scalarTokens] using here.line remark.gap shallow⟩
    · obtain ⟨n, body, rfl, opens, less⟩ := shallow
      have written : printBehind (f + 2) (f + 2) note (.leaf v) =
          ' ' :: (printScalar (f + 2) v ++ printRemark note ++ ['\n']) := by
        cases v with
        | null => cases tokens
        | _ => rfl
      rw [written, List.cons_append, List.append_assoc, List.append_assoc,
        List.singleton_append] at here
      have fresh := (spelling.opens (remark.avoids (d := '-') (by decide) (by decide) _)
        (remark.avoids (by decide) (by decide) (List.replicate n ' ' ++ body))).fresh
      obtain ⟨u, leads, reaches⟩ := (here.further fresh).scalar spelling remark deep opens less
      exact ⟨u, leads, n, body, rfl, opens, by simpa [Node.tokens, tokens] using reaches⟩
  | .list [] =>
    obtain ⟨n, body, rfl, opens, less⟩ := shallow
    rw [printBehind, List.append_assoc, List.append_assoc] at here
    obtain ⟨u, leads, reaches⟩ := (here.further (fresh_cons.2 (by decide))).brackets .list
      remark.gap deep opens.fresh
    exact ⟨u, leads, n, body, rfl, opens, reaches⟩
  | .record [] =>
    obtain ⟨n, body, rfl, opens, less⟩ := shallow
    rw [printBehind, List.append_assoc, List.append_assoc] at here
    obtain ⟨u, leads, reaches⟩ := (here.further (fresh_cons.2 (by decide))).brackets .record
      remark.gap deep opens.fresh
    exact ⟨u, leads, n, body, rfl, opens, reaches⟩
  | .list (m :: ns) =>
    rw [printBehind, List.append_assoc] at here
    have below : Shallow (f + 3) rest := shallow.mono (Nat.le_succ_of_le outer)
    have faces := here.line remark.gap (shallow_items (m :: ns) below)
    obtain ⟨u, leads, faces⟩ := leads_items (m :: ns) faces
      (fun s mem => whole s (List.mem_append_right _ mem)) (by omega) nofun below
    exact ⟨u, leads, faces.leave (by omega) (shallow.mono outer)⟩
  | .record (g :: fs) =>
    rw [printBehind, List.append_assoc] at here
    have below : Shallow (f + 3) rest := shallow.mono (Nat.le_succ_of_le outer)
    have faces := here.line remark.gap (shallow_fields (g :: fs) below)
    obtain ⟨u, leads, faces⟩ := leads_fields (g :: fs) faces
      (fun s mem => whole s (List.mem_append_right _ mem)) (by omega) nofun below
    exact ⟨u, leads, faces.leave (by omega) (shallow.mono outer)⟩

theorem leads_item (n : Node) {s : Lexer} {k : Stack} {column : Nat} {rest : List Char}
    (here : At s k true (column + 3) (itemText column n ++ rest))
    (whole : ∀ s ∈ n.notes, Whole s) (opened : k.depth = column + 3)
    (shallow : Shallow (column + 3) rest) :
    ∃ u, Leads s u ∧ Faces u (k.push n.tokens) rest := by
  -- A record begins on the line of its dash.
  have plain (text : itemText column n = printBehind (column + 4) (column + 4) none n) :
      ∃ u, Leads s u ∧ Faces u (k.push n.tokens) rest := by
    rw [text] at here
    exact leads_behind n here whole (by omega) (by omega) (by rwa [opened])
  match n with
  | .leaf v => exact plain rfl
  | .list items => exact plain rfl
  | .record [] => exact plain rfl
  | .record ((key, note, m) :: fs) =>
    have depth : (k.enter (column + 4) .blockMapping).depth = column + 5 :=
      Stack.depth_enter (by omega)
    have deeper : Shallow (column + 4) rest := shallow.mono (Nat.le_succ _)
    have next := shallow_fields fs (deeper.mono (Nat.le_succ _))
    have text : itemText column (.record ((key, note, m) :: fs)) ++ rest =
        ' ' :: (printKey (column + 4) key ++ (printBehind (column + 6) (column + 6) note m ++
          (printFields (column + 4) fs ++ rest))) := by simp [itemText]
    rw [text] at here
    obtain ⟨u₁, a, c, right, names, here⟩ :=
      (here.further (opens_printKey (column + 4) key _).fresh).field (by omega)
        (gap_printBehind (column + 6) (column + 6) note m _)
    obtain ⟨u₂, reads, faces⟩ := leads_behind m here
      (fun s mem => whole s (List.mem_append_left _ mem)) (by rw [Stack.depth_push, depth]; omega)
      (by rw [Stack.depth_push, depth]; omega) (by rw [Stack.depth_push, depth]; exact next)
    obtain ⟨u₃, onward, faces⟩ := leads_fields fs faces
      (fun s mem => whole s (List.mem_append_right _ mem)) (Nat.le_of_eq depth) (fun _ => depth)
      (deeper.mono (Nat.le_succ _))
    rw [Stack.push_push, Stack.enter_push depth, Stack.push_push] at faces
    refine ⟨u₃, names.trans (reads.trans onward), ?_⟩
    simpa [Node.tokens, fieldTokens] using faces.leave (by omega) deeper

theorem leads_items (ns : List Node) {s : Lexer} {k : Stack} {column : Nat} {rest : List Char}
    (faces : Faces s k (printItems column ns ++ rest)) (whole : ∀ s ∈ itemNotes ns, Whole s)
    (outer : k.depth ≤ column + 3) (opened : ns = [] → k.depth = column + 3)
    (shallow : Shallow (column + 3) rest) :
    ∃ u, Leads s u ∧
      Faces u ((k.enter (column + 2) .blockSequence).push (itemTokens ns)) rest := by
  match ns with
  | [] =>
    rw [Stack.enter_of_open (opened rfl), itemTokens, Stack.push_nil]
    exact ⟨s, .refl s, faces⟩
  | n :: ns =>
    have depth : (k.enter (column + 2) .blockSequence).depth = column + 3 :=
      Stack.depth_enter outer
    have next := shallow_items ns shallow
    have gap := gap_itemText column n (printItems column ns ++ rest)
    rw [printItems_cons, List.append_assoc, List.cons_append, List.append_assoc] at faces
    obtain ⟨u₁, dashes, here⟩ := (faces.reaches (opens_dash gap).fresh).dash outer gap
    obtain ⟨u₂, reads, faces⟩ := leads_item n here
      (fun s mem => whole s (List.mem_append_left _ mem)) depth next
    obtain ⟨u₃, onward, faces⟩ := leads_items ns faces
      (fun s mem => whole s (List.mem_append_right _ mem)) (Nat.le_of_eq depth) (fun _ => depth)
      shallow
    refine ⟨u₃, dashes.trans (reads.trans onward), ?_⟩
    rw [Stack.push_push, Stack.enter_push depth, Stack.push_push] at faces
    simpa [itemTokens] using faces

theorem leads_fields (fs : List (String × Option String × Node)) {s : Lexer} {k : Stack}
    {column : Nat} {rest : List Char} (faces : Faces s k (printFields column fs ++ rest))
    (whole : ∀ s ∈ fieldNotes fs, Whole s) (outer : k.depth ≤ column + 1)
    (opened : fs = [] → k.depth = column + 1) (shallow : Shallow (column + 1) rest) :
    ∃ u, Leads s u ∧ Faces u ((k.enter column .blockMapping).push (fieldTokens fs)) rest := by
  match fs with
  | [] =>
    rw [Stack.enter_of_open (opened rfl), fieldTokens, Stack.push_nil]
    exact ⟨s, .refl s, faces⟩
  | (key, note, n) :: fs =>
    have depth : (k.enter column .blockMapping).depth = column + 1 := Stack.depth_enter outer
    have next := shallow_fields fs shallow
    rw [printFields, List.append_assoc, List.append_assoc, List.append_assoc] at faces
    obtain ⟨u₁, a, c, right, names, here⟩ :=
      (faces.reaches (opens_printKey column key _).fresh).field outer
        (gap_printBehind (column + 2) (column + 2) note n _)
    obtain ⟨u₂, reads, faces⟩ := leads_behind n here
      (fun s mem => whole s (List.mem_append_left _ mem)) (by rw [Stack.depth_push, depth]; omega)
      (by rw [Stack.depth_push, depth]; omega) (by rw [Stack.depth_push, depth]; exact next)
    obtain ⟨u₃, onward, faces⟩ := leads_fields fs faces
      (fun s mem => whole s (List.mem_append_right _ mem)) (Nat.le_of_eq depth) (fun _ => depth)
      shallow
    refine ⟨u₃, names.trans (reads.trans onward), ?_⟩
    rw [Stack.push_push, Stack.enter_push depth, Stack.push_push] at faces
    simpa [fieldTokens] using faces

end

end Layout

end Lexer
end HostPlan.Yaml
