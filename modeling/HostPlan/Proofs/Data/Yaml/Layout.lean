import HostPlan.Proofs.Data.Yaml.Values
import HostPlan.Proofs.Text.Lines
/-!
The characters and the lines of a printed node. No text brings a line break along, and all lines
but the first one are indented. A text that is not read as it was written shows a next line
character, which is folded.
-/
namespace HostPlan.Yaml

/-- A character that a document may hold, other than the line break between its lines. -/
def IsWritten (c : Char) : Prop := isAcceptable c = true ∧ c ≠ '\n'

instance (c : Char) : Decidable (IsWritten c) := inferInstanceAs (Decidable (_ ∧ _))

section Characters

variable {c : Char} {s : List Char}

theorem written_of_visible (h : isVisible c = true) : IsWritten c := by
  simp only [isVisible, isPrintable, isBreak, Bool.and_eq_true, Bool.or_eq_true,
    Bool.not_eq_true', Bool.or_eq_false_iff, beq_eq_false_iff_ne, decide_eq_true_eq,
    bne_iff_ne] at h
  obtain ⟨printable, ⟨⟨feed, -⟩, -⟩, -⟩ := h
  refine ⟨?_, feed⟩
  rcases printable with low | ⟨⟨⟨high, -⟩, first⟩, second⟩
  · simp [isAcceptable, low]
  · simp [isAcceptable, high, first, second]

theorem written_of_rawBreak (h : isRawBreak c = true) : IsWritten c := by
  rcases isRawBreak_iff.1 h with rfl | rfl | rfl <;> decide

theorem written_of_isHex (h : isHex c = true) : IsWritten c := by
  have digits : ∀ c ∈ "0123456789".toList, IsWritten c := List.all_iff_forall_prop.1 rfl
  have letters : ∀ c ∈ "abcdefABCDEF".toList, IsWritten c := List.all_iff_forall_prop.1 rfl
  rcases Bool.or_eq_true_iff.1 h with digit | letter
  · exact digits c (mem_digits digit)
  · exact letters c (List.contains_iff_mem.1 letter)

theorem written_escape {e : List Char} (escape : Escape c e) : ∀ d ∈ e, IsWritten d := by
  cases escape with
  | @short e known =>
    have all : ∀ p ∈ simpleEscapes, IsWritten p.1 := by decide
    obtain ⟨before, after, parts, -⟩ := List.lookup_eq_some_iff.1 known
    have letter : IsWritten e := all (e, c) (by simp [parts])
    exact List.forall_mem_cons.2 ⟨by decide, List.forall_mem_singleton.2 letter⟩
  | visible visible => exact List.forall_mem_singleton.2 (written_of_visible visible)
  | @code e digits _ _ length _ hex =>
    have letter : IsWritten e := by
      have known : e = 'x' ∨ e = 'u' ∨ e = 'U' := by
        by_contra other
        simp only [not_or] at other
        simp [escapeLength?, other] at length
      rcases known with rfl | rfl | rfl <;> decide
    exact List.forall_mem_cons.2 ⟨by decide, List.forall_mem_cons.2 ⟨letter, fun d mem =>
      written_of_isHex (hex d mem).1⟩⟩

theorem mem_singleQuotedRest {column : Nat} (mem : c ∈ singleQuotedRest column s) :
    c = '\'' ∨ c = ' ' ∨ c ∈ s := by
  induction s with
  | nil => exact .inl (List.mem_singleton.1 mem)
  | cons d s ih =>
    have more (mem : c ∈ singleQuotedRest column s) : c = '\'' ∨ c = ' ' ∨ c ∈ d :: s :=
      (ih mem).imp_right (Or.imp_right (List.mem_cons_of_mem d))
    rw [singleQuotedRest_cons] at mem
    split at mem
    · rcases List.mem_cons.1 mem with rfl | mem
      · exact .inl rfl
      rcases List.mem_cons.1 mem with rfl | mem
      · exact .inl rfl
      · exact more mem
    split at mem
    · rcases List.mem_cons.1 mem with rfl | mem
      · exact .inr (.inr List.mem_cons_self)
      rcases List.mem_append.1 mem with space | mem
      · exact .inr (.inl (List.eq_of_mem_replicate space))
      · exact more mem
    · rcases List.mem_cons.1 mem with rfl | mem
      · exact .inr (.inr List.mem_cons_self)
      · exact more mem

theorem written_printText (column : Nat) (s : List Char) :
    ∀ c ∈ printText column s, IsWritten c := by
  unfold printText
  split
  · rename_i plain
    exact fun c mem => written_of_visible ((bare_of_isPlain plain).visible c mem)
  · split
    · intro c mem
      simp only [doubleQuoted, List.mem_cons, List.mem_append, List.mem_flatMap,
        List.not_mem_nil, or_false] at mem
      rcases mem with rfl | ⟨d, -, mem⟩ | rfl
      · decide
      · exact written_escape (escape_escapeChar d) c mem
      · decide
    · rename_i notDoubled
      have single : Single s := single_of_not_doubled (by simpa [isDoubled] using notDoubled)
      refine List.forall_mem_cons.2 ⟨by decide, fun c mem => ?_⟩
      rcases mem_singleQuotedRest mem with rfl | rfl | mem
      · decide
      · decide
      · rcases single.each c mem with visible | raw
        · exact written_of_visible visible
        · exact written_of_rawBreak raw

theorem written_printScalar (column : Nat) (v : Scalar) :
    ∀ c ∈ printScalar column v, IsWritten c := by
  cases v with
  | null => exact fun c mem => nomatch mem
  | flag b => exact fun c mem => written_of_visible ((bare_flag column b).visible c mem)
  | number i => exact fun c mem => written_of_visible ((bare_decimalInt i).visible c mem)
  | text s => exact written_printText column s.toList

end Characters

/-- Whole lines, each of which begins with some spaces. -/
inductive Indented (n : Nat) : List Char → Prop where
  | nil : Indented n []
  | line {l s : List Char} (written : ∀ c ∈ l, IsWritten c) (rest : Indented n s) :
    Indented n (List.replicate n ' ' ++ (l ++ '\n' :: s))

/-- The rest of a line, and lines below it that are indented. -/
def Hangs (n : Nat) (s : List Char) : Prop :=
  ∃ l t, s = l ++ '\n' :: t ∧ (∀ c ∈ l, IsWritten c) ∧ Indented n t

section Lines

variable {n m column : Nat} {s t l : List Char} {c : Char} {key : String}

theorem written_spaces (n : Nat) : ∀ c ∈ List.replicate n ' ', IsWritten c := by
  intro c mem
  rw [List.eq_of_mem_replicate mem]
  decide

theorem Indented.append (first : Indented n s) (second : Indented n t) : Indented n (s ++ t) := by
  induction first with
  | nil => exact second
  | line written _ ih =>
    rw [List.append_assoc, List.append_assoc, List.cons_append]
    exact .line written ih

theorem Indented.mono (deep : Indented m s) (le : n ≤ m) : Indented n s := by
  induction deep with
  | nil => exact .nil
  | @line l s written _ ih =>
    have split : List.replicate m ' ' = List.replicate n ' ' ++ List.replicate (m - n) ' ' := by
      rw [List.replicate_append_replicate, Nat.add_sub_cancel' le]
    rw [split, List.append_assoc, ← List.append_assoc _ l]
    exact .line (List.forall_mem_append.2 ⟨written_spaces _, written⟩) ih

theorem Hangs.mono (hangs : Hangs m s) (le : n ≤ m) : Hangs n s := by
  obtain ⟨l, t, parts, written, deep⟩ := hangs
  exact ⟨l, t, parts, written, deep.mono le⟩

theorem Hangs.behind (hangs : Hangs n s) (written : ∀ c ∈ l, IsWritten c) : Hangs n (l ++ s) := by
  obtain ⟨l', t, rfl, written', deep⟩ := hangs
  exact ⟨l ++ l', t, (List.append_assoc _ _ _).symm, List.forall_mem_append.2 ⟨written, written'⟩,
    deep⟩

theorem Hangs.append (hangs : Hangs n s) (below : Indented n t) : Hangs n (s ++ t) := by
  obtain ⟨l, t', rfl, written, deep⟩ := hangs
  exact ⟨l, t' ++ t, by simp, written, deep.append below⟩

theorem Hangs.indented (hangs : Hangs n s) : Indented n (List.replicate n ' ' ++ s) := by
  obtain ⟨l, t, rfl, written, deep⟩ := hangs
  exact .line written deep

theorem hangs_key (hangs : Hangs column s) : Hangs column (printKey column key ++ s) := by
  have text := written_printText (column + 2) key.toList
  unfold printKey
  split
  · exact hangs.behind (List.forall_mem_append.2 ⟨text, List.forall_mem_singleton.2 (by decide)⟩)
  · have value : Hangs column (':' :: s) :=
      hangs.behind (List.forall_mem_singleton.2 (by decide))
    refine ⟨'?' :: ' ' :: printText (column + 2) key.toList,
      List.replicate column ' ' ++ ':' :: s, by simp, ?_, value.indented⟩
    exact List.forall_mem_cons.2 ⟨by decide, List.forall_mem_cons.2 ⟨by decide, text⟩⟩

mutual

theorem hangs_behind (n : Node) (f : Nat) (bare : n.notes = []) :
    Hangs (f + 2) (printBehind (f + 2) (f + 2) none n) := by
  match n with
  | .leaf v =>
    have line : printBehind (f + 2) (f + 2) none (.leaf v) =
        (if v = .null then [] else ' ' :: printScalar (f + 2) v) ++ '\n' :: [] := by
      cases v <;> simp [printBehind, printRemark]
    rw [line]
    refine ⟨_, [], rfl, ?_, .nil⟩
    split
    · exact List.forall_mem_nil _
    · exact List.forall_mem_cons.2 ⟨by decide, written_printScalar (f + 2) v⟩
  | .list [] => exact ⟨" []".toList, [], rfl, List.all_iff_forall_prop.1 rfl, .nil⟩
  | .record [] => exact ⟨" \x7b\x7d".toList, [], rfl, List.all_iff_forall_prop.1 rfl, .nil⟩
  | .list (m :: ns) => exact ⟨[], _, rfl, List.forall_mem_nil _, indented_items (m :: ns) f bare⟩
  | .record (g :: fs) =>
    exact ⟨[], _, rfl, List.forall_mem_nil _, indented_fields (g :: fs) (f + 2) bare⟩

theorem hangs_item (n : Node) (column : Nat) (bare : n.notes = []) :
    Hangs (column + 4) (itemText column n) := by
  match n with
  | .leaf v => exact hangs_behind (.leaf v) (column + 2) bare
  | .list items => exact hangs_behind (.list items) (column + 2) bare
  | .record [] => exact hangs_behind (.record []) (column + 2) bare
  | .record ((key, note, m) :: fs) =>
    obtain ⟨none, own, others⟩ : note = .none ∧ m.notes = [] ∧ fieldNotes fs = [] := by
      simpa [Node.notes, fieldNotes] using bare
    subst none
    have value := (hangs_behind m (column + 4) own).mono (n := column + 4) (by omega)
    have below := indented_fields fs (column + 4) others
    exact (hangs_key (value.append below)).behind (List.forall_mem_singleton.2 (by decide))

theorem indented_items (ns : List Node) (column : Nat) (bare : itemNotes ns = []) :
    Indented (column + 2) (printItems column ns) := by
  match ns with
  | [] => exact .nil
  | n :: ns =>
    obtain ⟨own, others⟩ : n.notes = [] ∧ itemNotes ns = [] := by simpa [itemNotes] using bare
    have item := ((hangs_item n column own).mono (n := column + 2) (by omega)).behind
      (List.forall_mem_singleton.2 (by decide : IsWritten '-'))
    rw [printItems_cons, ← List.cons_append, ← List.append_assoc]
    exact item.indented.append (indented_items ns column others)

theorem indented_fields (fs : List (String × Option String × Node)) (column : Nat)
    (bare : fieldNotes fs = []) : Indented column (printFields column fs) := by
  match fs with
  | [] => exact .nil
  | (key, note, n) :: fs =>
    obtain ⟨none, own, others⟩ : note = .none ∧ n.notes = [] ∧ fieldNotes fs = [] := by
      simpa [fieldNotes] using bare
    subst none
    have value := (hangs_behind n column own).mono (n := column) (by omega)
    rw [printFields, List.append_assoc (List.replicate column ' ')]
    exact (hangs_key value).indented.append (indented_fields fs column others)

end

open Text in
/-- Indented lines stand as they are among the lines of a text. -/
theorem Indented.cut (deep : Indented n s) :
    ∃ ls : List (List Char), (∀ l ∈ ls, List.replicate n ' ' <+: l) ∧
      ∀ t, cutAt '\n' (s ++ t) = ls ++ cutAt '\n' t := by
  induction deep with
  | nil => exact ⟨[], nofun, fun t => rfl⟩
  | @line l s written _ ih =>
    obtain ⟨ls, each, cut⟩ := ih
    have flat : '\n' ∉ List.replicate n ' ' ++ l := fun mem =>
      (List.forall_mem_append.2 ⟨written_spaces n, written⟩ _ mem).2 rfl
    refine ⟨(List.replicate n ' ' ++ l) :: ls,
      List.forall_mem_cons.2 ⟨List.prefix_append _ _, each⟩, fun t => ?_⟩
    rw [← List.append_assoc, List.append_assoc, List.cons_append, cutAt_append_cons,
      cutAt_of_not_mem flat, cut t]
    rfl

theorem Indented.acceptable (deep : Indented n s) : ∀ c ∈ s, isAcceptable c = true := by
  induction deep with
  | nil => exact nofun
  | @line l s written _ ih =>
    refine List.forall_mem_append.2 ⟨fun c mem => (written_spaces n c mem).1, ?_⟩
    exact List.forall_mem_append.2 ⟨fun c mem => (written c mem).1,
      List.forall_mem_cons.2 ⟨by decide, ih⟩⟩

end Lines

section Texts

variable {column : Nat} {s : List Char} {text more : List Char} {t : String}

theorem subset_singleQuotedRest (column : Nat) (s : List Char) : s ⊆ singleQuotedRest column s := by
  induction s with
  | nil => exact List.nil_subset _
  | cons c s ih =>
    rw [singleQuotedRest_cons]
    split
    · rename_i quote
      exact quote ▸ List.cons_subset_cons _ (List.subset_cons_of_subset _ ih)
    · split
      · exact List.cons_subset_cons _ (List.subset_append_of_subset_right _ ih)
      · exact List.cons_subset_cons _ ih

/-- Folding takes away line breaks of these two kinds only. -/
theorem refold_eq_self {first : Bool} (next : '\x85' ∉ s) (feed : '\n' ∉ s) :
    refold first s = s := by
  induction s generalizing first with
  | nil => rfl
  | cons c s ih =>
    obtain ⟨here, next⟩ := not_or.1 (mt List.mem_cons.2 next)
    obtain ⟨here', feed⟩ := not_or.1 (mt List.mem_cons.2 feed)
    have kept : asFeed c = c := if_neg (Ne.symm here)
    simp [refold_cons, kept, Ne.symm here', ih next feed]

theorem reread_eq_self (next : '\x85' ∉ printText column s) : reread s = s := by
  unfold reread
  split
  · rfl
  · rename_i other
    obtain ⟨notPlain, notDoubled⟩ : isPlain s = false ∧ isDoubled s = false := by simpa using other
    rw [printText, notPlain, if_neg Bool.false_ne_true, ← isDoubled, notDoubled,
      if_neg Bool.false_ne_true] at next
    refine refold_eq_self (fun mem => next ?_) fun mem => ?_
    · exact List.mem_cons_of_mem _ (subset_singleQuotedRest column s mem)
    · simp [isDoubled, mem] at notDoubled

/-- Somewhere among these characters a text is written. -/
def Shows (text : List Char) (t : String) : Prop := ∃ column, printText column t.toList ⊆ text

theorem Shows.mono (shown : Shows text t) (subset : text ⊆ more) : Shows more t := by
  obtain ⟨column, written⟩ := shown
  exact ⟨column, List.Subset.trans written subset⟩

theorem shows_printKey (column : Nat) (key : String) : Shows (printKey column key) key := by
  refine ⟨column + 2, ?_⟩
  unfold printKey
  split <;> intro c mem <;> simp [mem]

mutual

theorem shows_behind (n : Node) (a b : Nat) (note : Option String) :
    ∀ t ∈ n.texts, Shows (printBehind a b note n) t := by
  match n with
  | .leaf .null | .leaf (.flag _) | .leaf (.number _) => exact nofun
  | .leaf (.text s) =>
    refine List.forall_mem_singleton.2 ⟨b, fun c mem => ?_⟩
    simp [printBehind, printScalar, mem]
  | .list [] | .record [] => exact nofun
  | .list (m :: ns) =>
    exact fun t mem => (shows_items (m :: ns) (a - 2) t mem).mono
      (List.subset_append_of_subset_right _ (List.subset_cons_self _ _))
  | .record (g :: fs) =>
    exact fun t mem => (shows_fields (g :: fs) a t mem).mono
      (List.subset_append_of_subset_right _ (List.subset_cons_self _ _))

theorem shows_item (n : Node) (column : Nat) : ∀ t ∈ n.texts, Shows (itemText column n) t := by
  match n with
  | .leaf v => exact shows_behind (.leaf v) _ _ _
  | .list items => exact shows_behind (.list items) _ _ _
  | .record [] => exact nofun
  | .record ((key, note, m) :: fs) =>
    intro t mem
    rcases List.mem_cons.1 mem with rfl | mem
    · refine (shows_printKey (column + 4) _).mono fun c mem => ?_
      simp [itemText, mem]
    rcases List.mem_append.1 mem with mem | mem
    · refine (shows_behind m (column + 6) (column + 6) note t mem).mono fun c mem => ?_
      simp [itemText, mem]
    · refine (shows_fields fs (column + 4) t mem).mono fun c mem => ?_
      simp [itemText, mem]

theorem shows_items (ns : List Node) (column : Nat) :
    ∀ t ∈ itemTexts ns, Shows (printItems column ns) t := by
  match ns with
  | [] => exact nofun
  | n :: ns =>
    intro t mem
    rw [printItems_cons]
    rcases List.mem_append.1 mem with mem | mem
    · refine (shows_item n column t mem).mono fun c mem => ?_
      simp [mem]
    · refine (shows_items ns column t mem).mono fun c mem => ?_
      simp [mem]

theorem shows_fields (fs : List (String × Option String × Node)) (column : Nat) :
    ∀ t ∈ fieldTexts fs, Shows (printFields column fs) t := by
  match fs with
  | [] => exact nofun
  | (key, note, n) :: fs =>
    intro t mem
    rw [printFields]
    rcases List.mem_cons.1 mem with rfl | mem
    · refine (shows_printKey column _).mono fun c mem => ?_
      simp [mem]
    rcases List.mem_append.1 mem with mem | mem
    · refine (shows_behind n (column + 2) (column + 2) note t mem).mono fun c mem => ?_
      simp [mem]
    · refine (shows_fields fs column t mem).mono fun c mem => ?_
      simp [mem]

end

/-- Where no next line character is written, every text is read as it is. -/
theorem rereadText_eq_self {fs : List (String × Option String × Node)}
    (next : '\x85' ∉ printFields 0 fs) : ∀ t ∈ fieldTexts fs, rereadText t = t := by
  intro t mem
  obtain ⟨column, written⟩ := shows_fields fs 0 t mem
  rw [rereadText, reread_eq_self fun known => next (written known), String.ofList_toList]

end Texts

end HostPlan.Yaml
