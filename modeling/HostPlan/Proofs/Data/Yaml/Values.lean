import HostPlan.Proofs.Data.RoundTrip
import HostPlan.Proofs.Data.WellFormed
import HostPlan.Proofs.Data.Yaml.Grammar
/-!
The data of a printed node. Every scalar keeps its kind, and every text is what it is read as; a
record is read unless two of its keys are then the same. Remarks are no part of the data.
-/
namespace HostPlan.Yaml

section Numerals

variable {n : Nat}

theorem digits_decimal (n : Nat) : ∀ c ∈ Text.decimal n, c.isDigit = true :=
  fun _ => Json.isDigit_of_mem_decimal

theorem hexValue?_isDigit {c : Char} (h : c.isDigit = true) :
    Json.hexValue? c = some (c.toNat - 48) := by
  have all : ∀ c ∈ "0123456789".toList, Json.hexValue? c = some (c.toNat - 48) :=
    List.all_iff_forall_prop.1 rfl
  exact all c (mem_digits h)

theorem valueOf_decimal (n : Nat) : valueOf 10 (Text.decimal n) = n := by
  have same : valueOf 10 (Text.decimal n) = Json.digitsValue (Text.decimal n) :=
    List.foldl_ext _ _ _ fun a c mem => by
      rw [hexValue?_isDigit (digits_decimal n c mem), Option.getD_some]
  rw [same, Json.digitsValue_decimal]

/-- A numeral with or without a sign. -/
theorem decimalInt_forms (i : Int) : ∃ (sign : List Char) (n : Nat),
    (sign = [] ∨ sign = ['-']) ∧ Text.decimalInt i = sign ++ Text.decimal n ∧
      i = if sign = ['-'] then -(n : Int) else n := by
  cases i with
  | ofNat n => exact ⟨[], n, .inl rfl, rfl, rfl⟩
  | negSucc n => exact ⟨['-'], n + 1, .inr rfl, rfl, rfl⟩

theorem decimal_cons (n : Nat) : ∃ c r, Text.decimal n = c :: r ∧ c.isDigit = true ∧
    ∀ d ∈ r, d.isDigit = true := by
  obtain ⟨c, r, shape⟩ := List.exists_cons_of_ne_nil (Nat.toDigits_ne_nil (n := n) (b := 10))
  have digits := digits_decimal n
  rw [Text.decimal, shape] at digits
  exact ⟨c, r, shape, List.forall_mem_cons.1 digits⟩

theorem unsigned_digit {c : Char} (digit : c.isDigit = true) (r : List Char) :
    unsigned (c :: r) = c :: r := by
  unfold unsigned
  split
  · rename_i same
    cases same
    cases digit
  · rename_i same
    cases same
    cases digit
  · rfl

theorem unsigned_decimalInt (i : Int) : ∃ n, unsigned (Text.decimalInt i) = Text.decimal n ∧
    startsNumber (Text.decimalInt i) = true ∧
    i = if (Text.decimalInt i).head? = some '-' then -(n : Int) else n := by
  obtain ⟨sign, n, kind, shape, value⟩ := decimalInt_forms i
  obtain ⟨c, r, digits, first, -⟩ := decimal_cons n
  rw [shape]
  refine ⟨n, ?_⟩
  rcases kind with rfl | rfl
  · have other : c ≠ '-' := by
      rintro rfl
      cases first
    rw [List.nil_append, digits]
    exact ⟨unsigned_digit first r, by simp [startsNumber, first], by simpa [other] using value⟩
  · exact ⟨rfl, rfl, by simpa using value⟩

/-- No letter behind a zero changes the base. -/
theorem second_digit {c x : Char} {r s : List Char} (more : ∀ d ∈ r, d.isDigit = true)
    (same : c :: r = '0' :: x :: s) : x.isDigit = true := by
  cases same
  exact more x List.mem_cons_self

theorem meaning_decimalInt (i : Int) : Meaning.of (Text.decimalInt i) = .integer := by
  obtain ⟨n, digits, first, -⟩ := unsigned_decimalInt i
  obtain ⟨c, r, shape, digit, more⟩ := decimal_cons n
  have words : ∀ w ∈ nulls ++ trues ++ falses, startsNumber w.toList = false := by decide
  have other (w : String) (mem : w ∈ nulls ++ trues ++ falses) :
      String.ofList (Text.decimalInt i) ≠ w := by
    rintro rfl
    have none := words _ mem
    rw [String.toList_ofList, first] at none
    cases none
  have real : isReal (Text.decimalInt i) = false := by
    unfold isReal
    rw [digits, shape]
    split
    · rename_i same
      cases same
      cases digit
    · rename_i same
      cases same
      have numeral : ∀ d ∈ r, isNumeral d = true := fun d mem => by simp [isNumeral, more d mem]
      have all : r.dropWhile isNumeral = [] := by
        rw [← List.append_nil r, List.dropWhile_append_of_pos numeral]
        rfl
      rw [all]
      simp [isExponent]
    · rfl
  have integer : isInteger (Text.decimalInt i) = true := by
    have all : ∀ d ∈ c :: r, d.isDigit = true := List.forall_mem_cons.2 ⟨digit, more⟩
    have each : ((c :: r).all fun d => d.isDigit || d == '_') = true :=
      List.all_eq_true.2 fun d mem => by rw [all d mem, Bool.true_or]
    unfold isInteger
    rw [first, digits, shape, Bool.true_and]
    split
    · exact absurd (second_digit more (by assumption)) (by decide)
    · exact absurd (second_digit more (by assumption)) (by decide)
    · exact absurd (second_digit more (by assumption)) (by decide)
    · rw [isRun, each]
      rfl
  have null : String.ofList (Text.decimalInt i) ∉ nulls := fun mem => other _ (by simp [mem]) rfl
  have yes : String.ofList (Text.decimalInt i) ∉ trues := fun mem => other _ (by simp [mem]) rfl
  have no : String.ofList (Text.decimalInt i) ∉ falses := fun mem => other _ (by simp [mem]) rfl
  simp only [Meaning.of, if_neg null, if_neg yes, if_neg no, real, integer, Bool.false_eq_true,
    if_false, if_true]

theorem integerOf_decimalInt (i : Int) : integerOf (Text.decimalInt i) = i := by
  obtain ⟨n, digits, -, value⟩ := unsigned_decimalInt i
  obtain ⟨c, r, shape, digit, more⟩ := decimal_cons n
  have plain : (Text.decimalInt i).filter (· != '_') = Text.decimalInt i := by
    rw [List.filter_eq_self]
    intro d mem
    obtain ⟨sign, k, kind, form, -⟩ := decimalInt_forms i
    rw [form, List.mem_append] at mem
    have other : d ≠ '_' := by
      rintro rfl
      rcases mem with mem | mem
      · rcases kind with rfl | rfl <;> simp at mem
      · exact absurd (digits_decimal k _ mem) (by decide)
    simpa using other
  have ten := valueOf_decimal n
  unfold integerOf
  simp only [plain, digits, shape]
  refine Eq.trans (congrArg (fun k : Int => if (Text.decimalInt i).head? = some '-' then -k else k)
    (?_ : _ = (n : Int))) value.symm
  rw [shape] at ten
  split
  · exact absurd (second_digit more (by assumption)) (by decide)
  · exact absurd (second_digit more (by assumption)) (by decide)
  · exact absurd (second_digit more (by assumption)) (by decide)
  · exact congrArg Int.ofNat ten

end Numerals

/-- The text that is read where a text was written. -/
def rereadText (s : String) : String := String.ofList (reread s.toList)

/-- What a scalar is read as. -/
def leafValue : Scalar → Value
  | .null => .null
  | .flag b => .flag b
  | .number i => .number i
  | .text s => .text (rereadText s)

mutual

/-- The data of a node; there is none where two keys of a record are read as one. -/
def Node.value? : Node → Option Value
  | .leaf v => some (leafValue v)
  | .list items => (itemValues? items).map .list
  | .record fields => (fieldValues? fields []).map .record

def itemValues? : List Node → Option (List Value)
  | [] => some []
  | n :: ns => do
    let v ← n.value?
    let vs ← itemValues? ns
    pure (v :: vs)

def fieldValues? :
    List (String × Option String × Node) → List (String × Value) → Option (List (String × Value))
  | [], own => some own
  | (k, _, n) :: fs, own => do
    let v ← n.value?
    if rereadText k ∈ Entries.keys own then none else fieldValues? fs (own ++ [(rereadText k, v)])

end

section Scalars

variable {s : List Char} {m : Mark}

theorem meaning_of_isPlain (plain : isPlain s = true) : Meaning.of s = .text := by
  simp only [isPlain, Bool.and_eq_true, beq_iff_eq] at plain
  exact plain.1.1.1.1.1.1

theorem reread_of_isPlain (plain : isPlain s = true) : reread s = s := by
  rw [reread, plain, Bool.true_or, if_pos rfl]

theorem scalarValue_text (s : List Char) (m : Mark) :
    scalarValue (isPlain s) none (reread s) m = .ok (.text (String.ofList (reread s))) := by
  cases plain : isPlain s with
  | false => rfl
  | true =>
    rw [reread_of_isPlain plain, scalarValue, if_pos rfl, plainValue, meaning_of_isPlain plain]

theorem leafTree_value (v : Scalar) (m : Mark) : (leafTree m v).value = .ok (leafValue v) := by
  cases v with
  | null => rfl
  | flag b => cases b <;> rfl
  | number i =>
    have numeral : plainValue (Text.decimalInt i) m = .ok (.number i) := by
      rw [plainValue, meaning_decimalInt, integerOf_decimalInt]
    exact numeral
  | text s => exact scalarValue_text s.toList m

/-- No key of a node is one of those with a meaning of their own. -/
theorem key_is_text (s : List Char) (m : Mark) :
    isMerge (.scalar (isPlain s) none (reread s) m) = false ∧
      isDefault (.scalar (isPlain s) none (reread s) m) = false := by
  cases plain : isPlain s with
  | false => exact ⟨rfl, rfl⟩
  | true =>
    rw [reread_of_isPlain plain]
    simp [isMerge, isDefault, meaning_of_isPlain plain]

end Scalars

section Trees

theorem sameKey_text (a b : String) : sameKey (.text a) (.text b) = decide (a = b) := by
  have same : sameKey (.text a) (.text b) = decide (Value.text a = .text b) := rfl
  simp only [same, Value.text.injEq]

/-- The fields that have been read, wherever they stand in the text. -/
structure Holding (fs : Fields) (own : List (String × Value)) : Prop where
  merged : fs.merged = []
  parts : fs.own.map (fun f => (f.1, f.2.1)) = own.map fun p => (.text p.1, p.2)
  distinct : (Entries.keys own).Nodup

variable {fs : Fields} {own : List (String × Value)} {v : Value} {m start : Mark} {key : String}

theorem Holding.value (holding : Holding fs own) : fs.value = .record own := by
  have shown : fs.own.map (fun f => (f.1.display, f.2.1)) = own := by
    have names := congrArg (List.map fun p : Value × Value => (p.1.display, p.2)) holding.parts
    rw [List.map_map, List.map_map] at names
    exact names.trans (List.map_id' own)
  rw [Fields.value, holding.merged, shown, List.nil_append, Entries.ofList_eq_self holding.distinct]

/-- Every key that has been read is a text. -/
theorem Holding.text (holding : Holding fs own) {f : Value × Value × Mark} (mem : f ∈ fs.own) :
    ∃ a ∈ Entries.keys own, f.1 = .text a := by
  have known : (f.1, f.2.1) ∈ own.map fun p => (Value.text p.1, p.2) :=
    holding.parts ▸ List.mem_map_of_mem mem
  obtain ⟨p, mem, same⟩ := List.mem_map.1 known
  exact ⟨p.1, List.mem_map_of_mem mem, (congrArg Prod.fst same).symm⟩

theorem Holding.add (holding : Holding fs own) (start : Mark) (key : String) (v : Value)
    (m : Mark) :
    (key ∈ Entries.keys own ∧ (fs.add start true (.text key) v m).toOption = none) ∨
    (key ∉ Entries.keys own ∧
      ∃ gs, fs.add start true (.text key) v m = .ok gs ∧ Holding gs (own ++ [(key, v)])) := by
  by_cases taken : key ∈ Entries.keys own
  · refine .inl ⟨taken, ?_⟩
    obtain ⟨p, mem, rfl⟩ := List.mem_map.1 taken
    have known : (Value.text p.1, p.2) ∈ fs.own.map fun f => (f.1, f.2.1) :=
      holding.parts ▸ List.mem_map_of_mem (f := fun p => (Value.text p.1, p.2)) mem
    obtain ⟨f, mem, same⟩ := List.mem_map.1 known
    have found : (fs.own.find? fun f => sameKey f.1 (.text p.1)).isSome = true := by
      refine List.find?_isSome.2 ⟨f, mem, ?_⟩
      rw [congrArg Prod.fst same, sameKey_text, decide_eq_true rfl]
    obtain ⟨g, found⟩ := Option.isSome_iff_exists.1 found
    simp only [Fields.add, found]
    rfl
  · refine .inr ⟨taken, ?_⟩
    have none : (fs.own.find? fun f => sameKey f.1 (.text key)) = none := by
      refine List.find?_eq_none.2 fun f mem => ?_
      obtain ⟨a, known, text⟩ := holding.text mem
      rw [text, sameKey_text, decide_eq_true_iff]
      exact fun same => taken (same ▸ known)
    refine ⟨{ fs with own := fs.own ++ [(.text key, v, m)] }, ?_, holding.merged, ?_, ?_⟩
    · simp only [Fields.add, none]
    · simp [holding.parts]
    · have keys : Entries.keys (own ++ [(key, v)]) = Entries.keys own ++ [key] := by
        simp [Entries.keys]
      rw [keys, List.nodup_append_comm]
      simpa using ⟨taken, holding.distinct⟩

theorem mergedOf_none {ts : List (Tree × Tree)} {nodes : List (String × Option String × Node)}
    (yields : fieldsYield nodes ts) (start : Mark) (merged : List (String × Value)) :
    mergedOf start ts merged = .ok merged := by
  induction nodes generalizing ts with
  | nil =>
    obtain rfl : ts = [] := yields
    rfl
  | cons f nodes ih =>
    obtain ⟨m, t, us, rfl, -, rest⟩ := yields
    rw [mergedOf, if_neg (by simp [(key_is_text f.1.toList m).1]), ih rest]

/-- The value is read first, and then the key is compared with the earlier ones. -/
theorem ownFields_cons (start : Mark) (key : String) (m : Mark) (t : Tree)
    (us : List (Tree × Tree)) (fs : Fields) :
    ownFields start true ((.scalar (isPlain key.toList) none (reread key.toList) m, t) :: us) fs =
      t.value >>= fun v => fs.add start true (.text (rereadText key)) v m >>= fun gs =>
        ownFields start true us gs := by
  obtain ⟨noMerge, noDefault⟩ := key_is_text key.toList m
  have text : (Tree.scalar (isPlain key.toList) none (reread key.toList) m).value =
      .ok (.text (rereadText key)) := scalarValue_text key.toList m
  rw [ownFields, noMerge, noDefault, text]
  rfl

theorem toOption_map {ε α β : Type} (f : α → β) (x : Except ε α) :
    (x.map f).toOption = x.toOption.map f := by
  cases x <;> rfl

theorem toOption_bind {ε α β : Type} (x : Except ε α) (f : α → Except ε β) :
    (x >>= f).toOption = x.toOption >>= fun a => (f a).toOption := by
  cases x <;> rfl

mutual

theorem value_of_yields (n : Node) {t : Tree} (yields : n.Yields t) :
    t.value.toOption = n.value? := by
  match n with
  | .leaf v =>
    obtain ⟨m, rfl⟩ := yields
    rw [leafTree_value]
    rfl
  | .list items =>
    obtain ⟨ts, m, rfl, rest⟩ := yields
    rw [Tree.value, Node.value?, ← itemValues_of_yields items rest]
    exact toOption_map _ _
  | .record fields =>
    obtain ⟨ts, m, rfl, rest⟩ := yields
    have empty : Holding {} [] := ⟨rfl, rfl, List.nodup_nil⟩
    have read : (Tree.record none ts m).value =
        ownFields m true ts {} >>= fun fs => pure fs.value := by
      rw [Tree.value, mergedOf_none rest]
      rfl
    rw [read, toOption_bind, Node.value?, ← ownFields_of_yields fields rest empty m]
    cases (ownFields m true ts {}).toOption <;> rfl

theorem itemValues_of_yields (ns : List Node) {ts : List Tree} (yields : itemsYield ns ts) :
    (itemValues ts).toOption = itemValues? ns := by
  match ns with
  | [] =>
    obtain rfl : ts = [] := yields
    rfl
  | n :: ns =>
    obtain ⟨t, us, rfl, one, rest⟩ := yields
    rw [itemValues, itemValues?, toOption_bind, value_of_yields n one]
    simp only [toOption_bind, itemValues_of_yields ns rest]
    rfl

theorem ownFields_of_yields (nodes : List (String × Option String × Node))
    {ts : List (Tree × Tree)} (yields : fieldsYield nodes ts) {fs : Fields}
    {own : List (String × Value)} (holding : Holding fs own) (start : Mark) :
    ((ownFields start true ts fs).toOption).map Fields.value =
      (fieldValues? nodes own).map .record := by
  match nodes with
  | [] =>
    obtain rfl : ts = [] := yields
    simp [ownFields, fieldValues?, Except.toOption, holding.value]
  | (key, note, n) :: nodes =>
    obtain ⟨m, t, us, rfl, one, rest⟩ := yields
    rw [ownFields_cons, toOption_bind, value_of_yields n one, fieldValues?]
    cases n.value? with
    | none => rfl
    | some v =>
      simp only [Option.bind_eq_bind, Option.bind_some]
      rcases holding.add start (rereadText key) v m with ⟨taken, fails⟩ | ⟨free, gs, added, holds⟩
      · rw [if_pos taken, toOption_bind, fails]
        rfl
      · rw [if_neg free, added]
        exact ownFields_of_yields nodes rest holds start

end

end Trees

mutual

/-- The texts in a node, keys among them. -/
def Node.texts : Node → List String
  | .leaf (.text s) => [s]
  | .leaf _ => []
  | .list items => itemTexts items
  | .record fields => fieldTexts fields

def itemTexts : List Node → List String
  | [] => []
  | n :: ns => n.texts ++ itemTexts ns

def fieldTexts : List (String × Option String × Node) → List String
  | [] => []
  | (k, _, n) :: fs => k :: (n.texts ++ fieldTexts fs)

end

section Remark

/-- Remarks are no part of the data. -/
theorem value?_remark (key : String) (note : Option String) (n : Node) :
    (n.remark key note).value? = n.value? := by
  match n with
  | .leaf v => rfl
  | .list items => rfl
  | .record fields =>
    have same (fs : List (String × Option String × Node)) (own : List (String × Value)) :
        fieldValues? (fs.map fun f => if f.1 = key then (f.1, note, f.2.2) else f) own =
          fieldValues? fs own := by
      induction fs generalizing own with
      | nil => rfl
      | cons f fs ih =>
        rw [List.map_cons]
        split <;> simp only [fieldValues?, ih]
    rw [Node.remark, Node.value?, Node.value?, same]

mutual

/-- Data has no remarks of its own. -/
theorem notes_ofValue (v : Value) : (Node.ofValue v).notes = [] := by
  match v with
  | .null | .flag _ | .number _ | .real _ | .text _ => rfl
  | .list items => exact notes_ofItems items
  | .record fields => exact notes_ofFields fields

theorem notes_ofItems (vs : List Value) : itemNotes (Node.ofItems vs) = [] := by
  match vs with
  | [] => rfl
  | v :: vs => rw [Node.ofItems, itemNotes, notes_ofValue v, notes_ofItems vs, List.nil_append]

theorem notes_ofFields (fs : List (String × Value)) : fieldNotes (Node.ofFields fs) = [] := by
  match fs with
  | [] => rfl
  | (key, v) :: fs =>
    rw [Node.ofFields, fieldNotes, notes_ofValue v, notes_ofFields fs]
    rfl

end

end Remark

section Values

variable {v : Value}

theorem itemValues?_ofItems {vs : List Value}
    (each : ∀ v ∈ vs, (Node.ofValue v).value? = some v) :
    itemValues? (Node.ofItems vs) = some vs := by
  induction vs with
  | nil => rfl
  | cons v vs ih =>
    obtain ⟨here, rest⟩ := List.forall_mem_cons.1 each
    rw [Node.ofItems, itemValues?, here, ih rest]
    rfl

theorem fieldValues?_ofFields {fs : List (String × Value)} (own : List (String × Value))
    (each : ∀ f ∈ fs, rereadText f.1 = f.1 ∧ (Node.ofValue f.2).value? = some f.2)
    (distinct : (Entries.keys (own ++ fs)).Nodup) :
    fieldValues? (Node.ofFields fs) own = some (own ++ fs) := by
  induction fs generalizing own with
  | nil => simp [Node.ofFields, fieldValues?]
  | cons f fs ih =>
    obtain ⟨⟨key, value⟩, rest⟩ := List.forall_mem_cons.1 each
    have moved : own ++ f :: fs = (own ++ [f]) ++ fs := by simp
    have new : f.1 ∉ Entries.keys own := by
      intro mem
      rw [Entries.keys, List.map_append] at distinct
      exact List.disjoint_of_nodup_append distinct mem (by simp)
    rw [moved] at distinct ⊢
    rw [← ih _ rest distinct, Node.ofFields, fieldValues?, value, key]
    simp [new]

theorem itemTexts_ofItems (vs : List Value) :
    itemTexts (Node.ofItems vs) = vs.flatMap fun v => (Node.ofValue v).texts := by
  induction vs with
  | nil => rfl
  | cons v vs ih => rw [Node.ofItems, itemTexts, ih, List.flatMap_cons]

theorem fieldTexts_ofFields (fs : List (String × Value)) :
    fieldTexts (Node.ofFields fs) = fs.flatMap fun f => f.1 :: (Node.ofValue f.2).texts := by
  induction fs with
  | nil => rfl
  | cons f fs ih => rw [Node.ofFields, fieldTexts, ih, List.flatMap_cons, List.cons_append]

/-- Data whose texts are read as they are is read from its node. -/
theorem value?_ofValue (whole : v.WellFormed)
    (stable : ∀ s ∈ (Node.ofValue v).texts, rereadText s = s) :
    (Node.ofValue v).value? = some v := by
  induction whole with
  | null => rfl
  | flag b => rfl
  | number i => rfl
  | text s =>
    have same : rereadText s = s := stable s (by simp [Node.ofValue, Node.texts])
    rw [Node.ofValue, Node.value?, leafValue, same]
  | @list items each ih =>
    rw [Node.ofValue, Node.texts, itemTexts_ofItems] at stable
    have values := itemValues?_ofItems fun v mem =>
      ih v mem fun s known => stable s (List.mem_flatMap.2 ⟨v, mem, known⟩)
    rw [Node.ofValue, Node.value?, values]
    rfl
  | @record fields distinct each ih =>
    rw [Node.ofValue, Node.texts, fieldTexts_ofFields] at stable
    have values := fieldValues?_ofFields [] (fun f mem =>
      ⟨stable f.1 (List.mem_flatMap.2 ⟨f, mem, List.mem_cons_self⟩), ih f mem fun s known =>
        stable s (List.mem_flatMap.2 ⟨f, mem, List.mem_cons_of_mem _ known⟩)⟩) distinct
    rw [Node.ofValue, Node.value?, values]
    rfl

end Values

end HostPlan.Yaml
