import HostPlan.Proofs.Source.Locality
import HostPlan.Proofs.Source.Statement
/-!
How a chain is written: a head, which is an object and a factory method behind the variable it may be
bound to, a group in parentheses, and a row of calls with a group each. What is read as a chain is
written so, from its first character to its last.
-/
namespace HostPlan.Source

open Text

section Forms

/-- A variable, the keyword before it and the assignment sign behind it. -/
inductive Binding (v : List Char) : List Char → Prop where
  | intro {keyword a b d : List Char} (word : keyword = ['v', 'a', 'r'] ∨
      keyword = ['c', 'o', 'n', 's', 't']) (ha : Blank a) (apart : a ≠ []) (hv : Name v) (hb : Blank b)
      (hd : Blank d) : Binding v (keyword ++ (a ++ (v ++ (b ++ '=' :: d))))

/-- The head of a chain, up to its method name. -/
inductive Head : Option (List Char) → List Char → List Char → List Char → Prop where
  | free {base a b w : List Char} (hbase : Name base) (ha : Blank a) (hb : Blank b) (hw : Name w) :
      Head none base (factoryStem ++ w) (base ++ (a ++ '.' :: (b ++ (factoryStem ++ w))))
  | bound {v x base method head : List Char} (binding : Binding v x)
      (rest : Head none base method head) : Head (some v) base method (x ++ head)

/-- Nothing, or a list of type arguments with the spaces behind it. -/
inductive Types : List Char → Prop where
  | none : Types []
  | some {t l : List Char} (angled : Angled 0 t) (simple : ∀ c ∈ t, c ≠ '(' ∧ c ≠ ')' ∧ c ≠ ';')
      (spaces : ∀ c ∈ l, c = ' ') : Types ('<' :: (t ++ '>' :: l))

/-- A text in matching parentheses, and the type arguments before them. -/
inductive Group (inner : List Char) : List Char → Prop where
  | intro {a t : List Char} (ha : Blank a) (types : Types t) (enclosed : Enclosed inner) :
      Group inner (a ++ (t ++ '(' :: (inner ++ [')'])))

/-- Calls in a row, each with its group behind those before it. -/
inductive Row : List MethodCall → List Char → Prop where
  | nil : Row [] []
  | cons {a b method inner group row : List Char} {calls : List MethodCall} (ha : Blank a)
      (hb : Blank b) (named : Name method) (hgroup : Group inner group) (rest : Row calls row) :
      Row (.ofText method inner :: calls) (a ++ '.' :: (b ++ (method ++ (group ++ row))))

/-- The end of a chain, which may be that of its statement. -/
inductive Stop : List Char → Prop where
  | none : Stop []
  | some {a : List Char} (ha : Blank a) : Stop (a ++ [';'])

/-- A chain that is written as this head and this text behind it. -/
inductive Written : Chain → List Char → List Char → Prop where
  | intro {v : Option (List Char)} {base method head inner group row stop : List Char}
      {calls : List MethodCall} (hhead : Head v base method head) (hgroup : Group inner group)
      (hrow : Row calls row) (hstop : Stop stop) :
      Written {
        rootMethod := String.ofList method
        name := String.ofList ((firstLiteral? inner).getD [])
        boundTo := v.map String.ofList
        base? := some (String.ofList base)
        rootArgs := (arguments inner).map String.ofList
        calls := calls
        raw := String.ofList (head ++ (group ++ (row ++ stop))) } head (group ++ (row ++ stop))

end Forms

section Words

theorem word_leadingWord (s : List Char) : Word (leadingWord s) :=
  fun c hc => List.all_eq_true.1 List.all_takeWhile c hc

theorem name_leadingWord {s : List Char} (filled : (leadingWord s).isEmpty = false) :
    Name (leadingWord s) :=
  ⟨by simpa using filled, word_leadingWord s⟩

/-- A word is read to its end. -/
theorem head?_afterWord {s : List Char} {c : Char} (h : (afterWord s).head? = some c) :
    isWord c = false := by
  have stops := List.head?_dropWhile_not isWord s
  rw [← afterWord, h] at stops
  simpa using stops

end Words

section Heads

variable {s x head base method : List Char} {v : Option (List Char)} {root : Root}

theorem Binding.unquoted {v : List Char} (h : Binding v x) : Unquoted x := by
  obtain ⟨word, ha, -, hv, hb, hd⟩ := h
  have behind := (Unquoted.of_word hv.word).append
    ((Unquoted.of_blank hb).append (.cons (c := '=') rfl (.of_blank hd)))
  rcases word with rfl | rfl
  · exact (Unquoted.of_word (by decide)).append ((Unquoted.of_blank ha).append behind)
  · exact (Unquoted.of_word (by decide)).append ((Unquoted.of_blank ha).append behind)

/-- A head ends with a dot and its method. -/
theorem Head.ends (h : Head v base method head) :
    ∃ a b, head = a ++ '.' :: (b ++ method) ∧ Unquoted a ∧ Blank b ∧ Name method := by
  induction h with
  | @free base a b w hbase ha hb hw =>
    have stem : Word factoryStem := by decide
    have word : Word (factoryStem ++ w) := List.forall_mem_append.2 ⟨stem, hw.word⟩
    exact ⟨base ++ a, b, (List.append_assoc ..).symm,
      (Unquoted.of_word hbase.word).append (.of_blank ha), hb, List.cons_ne_nil _ _, word⟩
  | @bound v x base method head binding rest ih =>
    obtain ⟨a, b, rfl, ha, hb, hmethod⟩ := ih
    exact ⟨x ++ a, b, (List.append_assoc ..).symm, binding.unquoted.append ha, hb, hmethod⟩

theorem Head.unquoted (h : Head v base method head) : Unquoted head := by
  obtain ⟨a, b, rfl, ha, hb, hmethod⟩ := h.ends
  exact ha.append (.cons rfl ((Unquoted.of_blank hb).append (.of_word hmethod.word)))

theorem Head.last (h : Head v base method head) : ∃ y c, head = y ++ [c] ∧ isWord c = true := by
  obtain ⟨a, b, rfl, -, -, hmethod⟩ := h.ends
  obtain ⟨w, c, rfl⟩ : ∃ w c, method = w ++ [c] := by
    simpa using List.eq_nil_or_concat method |>.resolve_left hmethod.filled
  exact ⟨a ++ '.' :: (b ++ w), c, by simp, hmethod.word c (by simp)⟩

theorem Head.begins (h : Head v base method head) : ∃ c r, isWord c = true ∧ head = c :: r := by
  cases h with
  | free hbase ha hb hw => exact hbase.cons _
  | bound binding rest =>
    obtain ⟨word, -, -, -, -, -⟩ := binding
    rcases word with rfl | rfl
    · exact ⟨'v', _, by decide, rfl⟩
    · exact ⟨'c', _, by decide, rfl⟩

/-- A text begins with a head, which is that of this root. -/
structure Begins (s head : List Char) (root : Root) : Prop where
  text : s = head ++ root.rest
  head : Head root.boundTo root.base root.method head
  whole : ∀ c, root.rest.head? = some c → isWord c = false

theorem exists_of_isFactory (word : Word method) (h : isFactory method = true) :
    ∃ w, Name w ∧ method = factoryStem ++ w := by
  rw [isFactory, Bool.and_eq_true, decide_eq_true_eq, List.isPrefixOf_iff_prefix] at h
  obtain ⟨⟨w, rfl⟩, longer⟩ := h
  refine ⟨w, ⟨?_, (List.forall_mem_append.1 word).2⟩, rfl⟩
  rintro rfl
  simp at longer

theorem begins_of_factory? (h : factory? v s = some root) :
    ∃ head, s = head ++ root.rest ∧ Head none root.base root.method head ∧ root.boundTo = v ∧
      ∀ c, root.rest.head? = some c → isWord c = false := by
  unfold factory? at h
  split at h
  · cases h
  · rename_i named
    split at h
    · rename_i r hr
      simp only at h
      split at h
      · rename_i factory
        cases h
        obtain ⟨a, ha, hs⟩ := exists_trimStart (afterWord s)
        obtain ⟨b, hb, ht⟩ := exists_trimStart r
        obtain ⟨w, hw, method⟩ := exists_of_isFactory (word_leadingWord _) factory
        refine ⟨leadingWord s ++ (a ++ '.' :: (b ++ leadingWord (trimStart r))), ?_, ?_, rfl,
          fun c => head?_afterWord⟩
        · have text : s = leadingWord s ++ (a ++ '.' :: (b ++ (leadingWord (trimStart r) ++
              afterWord (trimStart r)))) := by
            rw [leadingWord_append_afterWord, ← ht, ← hr, ← hs, leadingWord_append_afterWord]
          simpa using text
        · simp only [method]
          exact .free (name_leadingWord (by simpa using named)) ha hb hw
      · cases h
    · cases h

theorem binding_of_binding? {name r : List Char} (h : binding? s = some (name, r)) :
    ∃ x, s = x ++ r ∧ Binding name x := by
  unfold binding? at h
  split at h
  · rename_i keyword
    split at h
    · cases h
    · rename_i c t ht
      simp only at h
      split at h
      · cases h
      · rename_i blank
        split at h
        · rename_i u hu
          cases h
          simp only [Bool.or_eq_true, Bool.not_eq_true', not_or, Bool.not_eq_false,
            Bool.not_eq_true] at blank
          obtain ⟨a, ha, ht'⟩ := exists_trimStart t
          obtain ⟨b, hb, hu'⟩ := exists_trimStart (afterWord (trimStart t))
          obtain ⟨d, hd, hd'⟩ := exists_trimStart u
          refine ⟨_, ?_, .intro keyword (List.forall_mem_cons.2 ⟨blank.1, ha⟩)
            (List.cons_ne_nil c a) (name_leadingWord blank.2) hb hd⟩
          have text : s = leadingWord s ++ (c :: (a ++ (leadingWord (trimStart t) ++ (b ++
              '=' :: (d ++ trimStart u))))) := by
            rw [← hd', ← hu, ← hu', leadingWord_append_afterWord, ← ht', ← ht,
              leadingWord_append_afterWord]
          simpa using text
        · cases h
  · cases h

theorem begins_of_root? (h : root? s = some root) : ∃ head, Begins s head root := by
  unfold root? at h
  split at h
  · rename_i root' hb
    obtain ⟨⟨name, r⟩, bound, hf⟩ := Option.bind_eq_some_iff.1 hb
    cases h
    obtain ⟨x, rfl, binding⟩ := binding_of_binding? bound
    obtain ⟨head, rfl, free, boundTo, whole⟩ := begins_of_factory? hf
    exact ⟨x ++ head, (List.append_assoc ..).symm, boundTo ▸ .bound binding free, whole⟩
  · obtain ⟨head, rfl, free, boundTo, whole⟩ := begins_of_factory? h
    exact ⟨head, rfl, boundTo ▸ free, whole⟩

/-- A head that is found is made of whole words. -/
theorem begins_of_findRoot {fresh : Bool} {n : Nat} (h : findRoot fresh s = some (n, root)) :
    ∃ before t head, s = before ++ t ∧ before.length = n ∧ Begins t head root ∧
      (∀ c, before.getLast? = some c → isWord c = false) ∧ (before = [] → fresh = true) := by
  induction s generalizing fresh n with
  | nil => cases h
  | cons c s ih =>
    rw [findRoot_cons, Option.or_eq_some_iff] at h
    rcases h with here | ⟨-, later⟩
    · obtain ⟨root', hr, he⟩ := Option.map_eq_some_iff.1 here
      cases he
      split at hr
      · rename_i first
        obtain ⟨head, begins⟩ := begins_of_root? hr
        exact ⟨[], c :: s, head, rfl, rfl, begins, nofun, fun _ => (Bool.and_eq_true_iff.1 first).1⟩
      · cases hr
    · obtain ⟨⟨m, root'⟩, hm, he⟩ := Option.map_eq_some_iff.1 later
      cases he
      obtain ⟨before, t, head, rfl, length, begins, last, first⟩ := ih hm
      refine ⟨c :: before, t, head, rfl, by rw [List.length_cons, length, Nat.add_comm], begins, ?_,
        nofun⟩
      intro d hd
      cases before with
      | nil =>
        cases hd
        simpa using first rfl
      | cons e before => exact last d (by simpa using hd)

end Heads

section Groups

variable {s r inner : List Char}

/-- What is read up to the parenthesis that closes holds brackets and literals that close. -/
theorem nested_of_untilClosed {p : Place} {d : Nat}
    (h : untilClosed p (d + 1) s = some (inner, r)) :
    Above d (p.marks inner) ∧ d + depth (p.marks inner) = 0 := by
  induction s generalizing p d inner with
  | nil => cases h
  | cons c s ih =>
    by_cases last : p = .code ∧ isCloser c ∧ d = 0
    · obtain ⟨rfl, closer, rfl⟩ := last
      rw [untilClosed, if_pos ⟨rfl, closer⟩, if_pos (Nat.le_refl 1)] at h
      split at h
      · cases h
        exact ⟨trivial, rfl⟩
      · cases h
    · -- A character that does not close the group leaves a bracket open.
      have left : 0 ≤ (d : Int) + (p.mark c).weight := by
        by_cases hp : p = .code
        · subst hp
          rw [Place.weight_mark_code]
          split
          · omega
          · split
            · rename_i closer
              have open_ : d ≠ 0 := fun none => last ⟨rfl, closer, none⟩
              omega
            · omega
        · rw [Place.weight_mark hp]
          omega
      obtain ⟨e, he⟩ := Int.eq_ofNat_of_zero_le left
      rw [untilClosed_cons (e := e) (by omega)] at h
      obtain ⟨⟨inner', r'⟩, h', same⟩ := Option.map_eq_some_iff.1 h
      cases same
      obtain ⟨above, closed⟩ := ih h'
      rw [Place.marks, depth_cons, Above, he]
      exact ⟨⟨by omega, above⟩, by omega⟩

theorem enclosed_of_untilClosed (h : untilClosed .code 1 s = some (inner, r)) : Enclosed inner := by
  obtain ⟨above, closed⟩ := nested_of_untilClosed (d := 0) h
  exact ⟨after_untilClosed h, above, by simpa using closed⟩

theorem types_of_afterTypeArguments {d : Nat} (h : afterTypeArguments (d + 1) s = some r) :
    ∃ t l, s = t ++ '>' :: (l ++ r) ∧ Angled d t ∧ (∀ c ∈ t, c ≠ '(' ∧ c ≠ ')' ∧ c ≠ ';') ∧
      ∀ c ∈ l, c = ' ' := by
  induction s generalizing d with
  | nil => cases h
  | cons c s ih =>
    have onwards {e : Nat} (free : c ≠ '(' ∧ c ≠ ')' ∧ c ≠ ';')
        (angled : ∀ t, Angled e t → Angled d (c :: t)) (h : afterTypeArguments (e + 1) s = some r) :
        ∃ t l, c :: s = t ++ '>' :: (l ++ r) ∧ Angled d t ∧
          (∀ c ∈ t, c ≠ '(' ∧ c ≠ ')' ∧ c ≠ ';') ∧ ∀ c ∈ l, c = ' ' := by
      obtain ⟨t, l, rfl, ht, simple, spaces⟩ := ih h
      exact ⟨c :: t, l, rfl, angled t ht, List.forall_mem_cons.2 ⟨free, simple⟩, spaces⟩
    rw [afterTypeArguments] at h
    split at h
    · rename_i opens
      exact onwards (by rw [opens]; decide) (fun t ht => by rwa [Angled, if_pos opens]) h
    · rename_i opens
      split at h
      · rename_i closes
        split at h
        · rename_i last
          obtain rfl : d = 0 := by omega
          refine ⟨[], s.takeWhile (· == ' '), ?_, rfl, List.forall_mem_nil _, fun e he => ?_⟩
          · rw [closes, ← Option.some.inj h, List.takeWhile_append_dropWhile, List.nil_append]
          · exact eq_of_beq (List.all_eq_true.1 List.all_takeWhile e he)
        · rename_i more
          obtain ⟨e, rfl⟩ : ∃ e, d = e + 1 := ⟨d - 1, by omega⟩
          refine onwards (by rw [closes]; decide) (fun t ht => ?_) h
          rw [Angled, if_neg opens, if_pos closes]
          exact ⟨by omega, ht⟩
      · rename_i closes
        split at h
        · cases h
        · rename_i free
          simp only [not_or] at free
          exact onwards free (fun t ht => by rwa [Angled, if_neg opens, if_neg closes]) h

theorem types_of_skipTypeArguments (h : skipTypeArguments s = some r) :
    ∃ t, s = t ++ r ∧ Types t := by
  unfold skipTypeArguments at h
  split at h
  · obtain ⟨t, l, rfl, angled, simple, spaces⟩ := types_of_afterTypeArguments (d := 0) h
    exact ⟨'<' :: (t ++ '>' :: l), by simp, .some angled simple spaces⟩
  · exact ⟨[], Option.some.inj h, .none⟩

/-- A group is read behind blanks. -/
theorem group_of_untilClosed {a t u : List Char} (ha : Blank a) (hs : s = a ++ t)
    (skipped : skipTypeArguments t = some ('(' :: u))
    (closes : untilClosed .code 1 u = some (inner, r)) :
    ∃ group, s = group ++ r ∧ Group inner group := by
  obtain ⟨types, rfl, htypes⟩ := types_of_skipTypeArguments skipped
  refine ⟨_, ?_, .intro ha htypes (enclosed_of_untilClosed closes)⟩
  rw [hs, eq_append_of_untilClosed closes]
  simp

theorem call_of_nextCall {c : MethodCall} (h : nextCall s = .call c r) :
    ∃ a b method inner group, s = a ++ '.' :: (b ++ (method ++ (group ++ r))) ∧ Blank a ∧ Blank b ∧
      Name method ∧ Group inner group ∧ c = .ofText method inner := by
  obtain ⟨u, t, inner, dot, named, skipped, closes, rfl⟩ := nextCall_eq_call_iff.1 h
  obtain ⟨a, ha, hs⟩ := exists_trimStart s
  obtain ⟨b, hb, hu⟩ := exists_trimStart u
  obtain ⟨g, hg, hafter⟩ := exists_trimStart (afterWord (trimStart u))
  obtain ⟨group, text, hgroup⟩ := group_of_untilClosed hg hafter skipped closes
  refine ⟨a, b, leadingWord (trimStart u), inner, group, ?_, ha, hb,
    name_leadingWord (by simpa using named), hgroup, rfl⟩
  rw [← text, leadingWord_append_afterWord, ← hu, ← dot, ← hs]

/-- What is read as calls is a row of them. -/
theorem row_of_readCalls (s : List Char) :
    ∃ row, s = row ++ (readCalls s).rest ∧ Row (readCalls s).calls row := by
  induction hn : s.length using Nat.strongRecOn generalizing s with
  | ind n ih =>
    cases hc : nextCall s with
    | none =>
      rw [readCalls_none hc]
      exact ⟨[], rfl, .nil⟩
    | unclosed =>
      rw [readCalls_unclosed hc]
      exact ⟨[], rfl, .nil⟩
    | call c r =>
      obtain ⟨row, text, hrow⟩ := ih r.length (hn ▸ length_lt_of_nextCall hc) r rfl
      rw [readCalls_call hc]
      obtain ⟨a, b, method, inner, group, rfl, ha, hb, named, hgroup, rfl⟩ := call_of_nextCall hc
      refine ⟨_, ?_, .cons ha hb named hgroup hrow⟩
      simp [← text]

theorem stop_of_afterStatement (s : List Char) :
    ∃ stop, s = stop ++ afterStatement s ∧ Stop stop := by
  rw [afterStatement]
  split
  · rename_i t ht
    obtain ⟨a, ha, hs⟩ := exists_trimStart s
    rw [ht] at hs
    exact ⟨a ++ [';'], by rw [hs, List.append_assoc]; rfl, .some ha⟩
  · exact ⟨[], rfl, .none⟩

/-- What is read behind a head is a chain that is written there. -/
theorem written_of_readChain? {z head : List Char} {root : Root} {c : Chain}
    (hhead : Head root.boundTo root.base root.method head)
    (h : readChain? root (head ++ z) z = some (c, r)) :
    ∃ tail, z = tail ++ r ∧ Written c head tail := by
  rw [readChain?_eq] at h
  split at h
  · rename_i s skipped
    obtain ⟨⟨inner, behind⟩, closes, hc⟩ := Option.bind_eq_some_iff.1 h
    obtain ⟨group, text, hgroup⟩ := group_of_untilClosed (blank_spaces z)
      List.takeWhile_append_dropWhile.symm skipped closes
    obtain ⟨row, hbehind, hrow⟩ := row_of_readCalls behind
    obtain ⟨stop, hrest, hstop⟩ := stop_of_afterStatement (readCalls behind).rest
    simp only [chainOf] at hc
    split at hc
    · cases hc
      have whole : z = group ++ (row ++ stop) ++ afterStatement (readCalls behind).rest := by
        rw [List.append_assoc, List.append_assoc, ← hrest, ← hbehind, ← text]
      have raw : (head ++ z).take ((head ++ z).length -
          (afterStatement (readCalls behind).rest).length) = head ++ (group ++ (row ++ stop)) := by
        conv_lhs => rw [whole, ← List.append_assoc, List.length_append, Nat.add_sub_cancel]
        exact List.take_left
      refine ⟨group ++ (row ++ stop), whole, ?_⟩
      rw [raw]
      exact .intro hhead hgroup hrow hstop
    · cases hc
  · cases h

theorem Group.ends {group : List Char} (h : Group inner group) : ∃ y, group = y ++ [')'] := by
  cases h with
  | @intro a t ha types enclosed => exact ⟨a ++ (t ++ '(' :: inner), by simp⟩

theorem Row.ends {calls : List MethodCall} {row : List Char} (h : Row calls row) :
    row = [] ∨ ∃ y, row = y ++ [')'] := by
  induction h with
  | nil => exact .inl rfl
  | @cons a b method inner group row calls ha hb named hgroup rest ih =>
    rcases ih with rfl | ⟨y, rfl⟩
    · obtain ⟨y, rfl⟩ := hgroup.ends
      exact .inr ⟨a ++ '.' :: (b ++ (method ++ y)), by simp⟩
    · exact .inr ⟨a ++ '.' :: (b ++ (method ++ (group ++ y))), by simp⟩

theorem Written.raw {c : Chain} {head tail : List Char} (h : Written c head tail) :
    c.raw = String.ofList (head ++ tail) := by
  cases h
  rfl

/-- A chain ends with a parenthesis or with its statement. -/
theorem Written.ends {c : Chain} {head tail : List Char} (h : Written c head tail) :
    ∃ y d, tail = y ++ [d] ∧ isWord d = false := by
  cases h with
  | @intro v base method head inner group row stop calls hhead hgroup hrow hstop =>
    cases hstop with
    | @some a ha => exact ⟨group ++ (row ++ a), ';', by simp, by decide⟩
    | none =>
      rcases hrow.ends with rfl | ⟨y, rfl⟩
      · obtain ⟨y, rfl⟩ := hgroup.ends
        exact ⟨y, ')', by simp, by decide⟩
      · exact ⟨group ++ y, ')', by simp, by decide⟩

end Groups

end HostPlan.Source
