import HostPlan.Declaration.Setting
import HostPlan.Proofs.Source.Literal
/-!
When the value of a variable is a literal. A value should be a literal if it is one string literal
and nothing else. What decides is whether a literal stands anywhere in the value, so an index or an
argument that is a literal is taken for the value of the whole.
-/
namespace HostPlan.Source

section Reading

variable {q : Char} {body s t : List Char}

theorem Place.Unbroken.cons {p : Place} {c : Char} (head : c = '\n' → ∀ q, p ≠ .escape q)
    (rest : (p.next c).Unbroken s) : p.Unbroken (c :: s) := by
  intro t q ht
  cases t with
  | nil =>
    obtain ⟨same, -⟩ := List.cons_prefix_cons.1 ht
    exact head same.symm q
  | cons d t =>
    obtain ⟨rfl, shorter⟩ := List.cons_prefix_cons.1 ht
    exact rest t q shorter

theorem Place.Unbroken.cons_literal {q c : Char}
    (rest : ((Place.literal q).next c).Unbroken s) : (Place.literal q).Unbroken (c :: s) :=
  .cons (fun _ _ same => Place.noConfusion same) rest

/-- A content that is read ends at its closing quote, and escapes no line break. -/
theorem literalContent?_sound (hq : q ≠ '\\') (h : literalContent? q s = some t) :
    ∃ r, s = t ++ q :: r ∧ Closes q (t ++ [q]) ∧ (Place.literal q).Unbroken (t ++ [q]) := by
  induction s using literalContent?.induct q generalizing t with
  | case1 => cases h
  | case2 r => simp [literalContent?] at h
  | case3 c r other ih =>
    rw [literalContent?_escape other, Option.map_eq_some_iff] at h
    obtain ⟨t, read, rfl⟩ := h
    obtain ⟨r, rfl, closes, unbroken⟩ := ih read
    have escape := Place.next_backslash q
    have behind : (Place.escape q).Unbroken (c :: (t ++ [q])) :=
      Place.Unbroken.cons (fun same => absurd same other) unbroken
    refine ⟨r, rfl, closes.escape c, Place.Unbroken.cons_literal ?_⟩
    rw [escape]
    exact behind
  | case4 r single =>
    rw [literalContent?_quote hq, Option.some.injEq] at h
    subst h
    exact ⟨r, rfl, .quote hq, .cons_literal fun t e ht => by simp at ht⟩
  | case5 r last other => simp [literalContent?, other] at h
  | case6 c r last other plain ih =>
    rw [literalContent?_other other plain, Option.map_eq_some_iff] at h
    obtain ⟨t, read, rfl⟩ := h
    obtain ⟨r, rfl, closes, unbroken⟩ := ih read
    have same := Place.next_inside plain other
    refine ⟨r, rfl, closes.cons other plain, Place.Unbroken.cons_literal ?_⟩
    rw [same]
    exact unbroken

/-- The text is one string literal with this content. -/
def IsLiteral (s content : List Char) : Prop :=
  ∃ q, isQuote q = true ∧ s = q :: (content ++ [q]) ∧ Closes q (content ++ [q])

theorem IsLiteral.head? (h : IsLiteral s t) : ∃ q, isQuote q = true ∧ s.head? = some q := by
  obtain ⟨q, hq, rfl, -⟩ := h
  exact ⟨q, hq, rfl⟩

theorem unbroken_quote (hq : isQuote q = true) :
    Unbroken (q :: body) ↔ (Place.literal q).Unbroken body := by
  constructor
  · intro h
    have tail := Place.Unbroken.tail (p := .code) h
    rwa [Place.next_quote hq] at tail
  · intro h
    exact Place.Unbroken.cons (p := .code) nofun (by rwa [Place.next_quote hq])

theorem unbroken_of_not_mem (h : '\n' ∉ s) : Unbroken s :=
  fun _ _ broken => absurd (broken.subset (by simp)) h

theorem firstLiteral?_sound (h : firstLiteral? s = some t) :
    ∃ x lit y, s = x ++ (lit ++ y) ∧ IsLiteral lit t ∧ Unbroken lit := by
  induction s using firstLiteral?.induct with
  | case1 => cases h
  | case2 c r quote u read =>
    rw [firstLiteral?, if_pos quote, read, Option.some.injEq] at h
    subst h
    obtain ⟨y, rfl, closes, unbroken⟩ := literalContent?_sound (ne_backslash_of_isQuote quote) read
    exact ⟨[], c :: (u ++ [c]), y, by simp, ⟨c, quote, rfl, closes⟩, (unbroken_quote quote).2 unbroken⟩
  | case3 c r quote unread ih =>
    rw [firstLiteral?, if_pos quote, unread] at h
    obtain ⟨x, lit, y, rfl, found⟩ := ih h
    exact ⟨c :: x, lit, y, rfl, found⟩
  | case4 c r code ih =>
    rw [firstLiteral?, if_neg code] at h
    obtain ⟨x, lit, y, rfl, found⟩ := ih h
    exact ⟨c :: x, lit, y, rfl, found⟩

/-- A literal at the front of a text is the first one, if no line break in it is escaped. -/
theorem IsLiteral.first (h : IsLiteral s t) (unbroken : Unbroken s) (r : List Char) :
    firstLiteral? (s ++ r) = some t := by
  obtain ⟨q, hq, rfl, closes⟩ := h
  have content := literalContent?_append closes.inside closes.ends ((unbroken_quote hq).1 unbroken) r
  rw [List.cons_append, firstLiteral?, if_pos hq, content, List.dropLast_concat]

theorem firstLiteral?_isSome_iff :
    (firstLiteral? s).isSome = true ↔ ∃ lit, lit <:+: s ∧ (∃ t, IsLiteral lit t) ∧ Unbroken lit := by
  constructor
  · intro some'
    obtain ⟨t, ht⟩ := Option.isSome_iff_exists.1 some'
    obtain ⟨x, lit, y, rfl, literal, unbroken⟩ := firstLiteral?_sound ht
    exact ⟨lit, ⟨x, y, by simp⟩, ⟨t, literal⟩, unbroken⟩
  · rintro ⟨lit, ⟨x, y, rfl⟩, ⟨t, literal⟩, unbroken⟩
    rw [List.append_assoc]
    induction x with
    | nil => rw [List.nil_append, literal.first unbroken]; rfl
    | cons c x ih =>
      rw [List.cons_append, firstLiteral?]
      split
      · split
        · rfl
        · exact ih
      · exact ih

/-- A literal whose content is found has no escaped line break. -/
theorem IsLiteral.unbroken_of_first (h : IsLiteral s t) (found : firstLiteral? s = some t) :
    Unbroken s := by
  obtain ⟨x, lit, y, split, ⟨q, hq, rfl, closes⟩, unbroken⟩ := firstLiteral?_sound found
  obtain ⟨e, he, rfl, -⟩ := h
  -- The literal that is found has the same content, so it is as long as the text: nothing is around it.
  have lengths := congrArg List.length split
  simp only [List.length_cons, List.length_append, List.length_nil] at lengths
  have front : x = [] := List.eq_nil_of_length_eq_zero (by omega)
  have back : y = [] := List.eq_nil_of_length_eq_zero (by omega)
  rw [split, front, back, List.nil_append, List.append_nil]
  exact unbroken

/-- A text whose literals close and escape no line break holds a literal unless it has no quote. -/
theorem holds_literal_iff (closed : Place.code.after s = .code) (unbroken : Unbroken s) :
    (∃ lit, lit <:+: s ∧ (∃ t, IsLiteral lit t) ∧ Unbroken lit) ↔ ¬ Unquoted s := by
  constructor
  · rintro ⟨lit, infix', ⟨t, q, hq, rfl, -⟩, -⟩ plain
    have none := plain q (infix'.subset List.mem_cons_self)
    rw [none] at hq
    cases hq
  · intro quoted
    rcases Place.cases_segments s with plain | ⟨run, q, body, rest, rfl, plain, hq, inside, ends⟩
    · exact absurd plain quoted
    · -- The literal that the first quote opens is one that closes, as no literal is left open.
      have last := Place.closed_literal plain hq ends closed
      obtain ⟨t, rfl⟩ := inside.ends_with last (.inl rfl)
      refine ⟨q :: (t ++ [q]), ⟨run, rest, by simp⟩, ⟨t, q, hq, rfl, inside, last⟩, ?_⟩
      intro p e hp
      have longer : run ++ p ++ ['\n'] <+: run ++ q :: (t ++ [q] ++ rest) := by
        rw [List.append_assoc]
        exact List.prefix_append_right_inj run |>.2 (hp.trans ⟨rest, by simp⟩)
      have there := unbroken (run ++ p) e longer
      rwa [Place.after_append, Place.after_code plain] at there

end Reading
end HostPlan.Source

namespace HostPlan.Declaration

open Source Text

/-- The variable takes the text as its value: the content of a literal, and any other text as it is,
for an expression. -/
structure Takes (text : List Char) (v : Variable) : Prop where
  literal : ∀ t, IsLiteral text t → v.value = String.ofList t ∧ v.isExpression = false
  expression : (∀ t, ¬ IsLiteral text t) →
    v.value = String.ofList (trim text) ∧ v.isExpression = true

/-- The variable of a key and the text of its value. -/
def variableOf (key : String) (text : List Char) : Variable :=
  match firstLiteral? text with
  | some t => ⟨key, String.ofList t, false⟩
  | none => ⟨key, String.ofList (trim text), true⟩

theorem variableOf_some {key : String} {text t : List Char} (h : firstLiteral? text = some t) :
    variableOf key text = ⟨key, String.ofList t, false⟩ := by
  rw [variableOf, h]

theorem variableOf_none {key : String} {text : List Char} (h : firstLiteral? text = none) :
    variableOf key text = ⟨key, String.ofList (trim text), true⟩ := by
  rw [variableOf, h]

theorem takes_variableOf_iff (key : String) (text : List Char) :
    Takes text (variableOf key text) ↔
      (∃ t, IsLiteral text t) ∧ Unbroken text ∨
      (∀ t, ¬ IsLiteral text t) ∧
        ¬ ∃ lit, lit <:+: text ∧ (∃ t, IsLiteral lit t) ∧ Unbroken lit := by
  rw [← firstLiteral?_isSome_iff]
  constructor
  · intro ⟨literal, expression⟩
    cases found : firstLiteral? text with
    | some u =>
      rw [variableOf_some found] at literal expression
      by_cases single : ∃ t, IsLiteral text t
      · obtain ⟨t, ht⟩ := single
        obtain rfl : u = t := String.ofList_injective (literal t ht).1
        exact .inl ⟨⟨u, ht⟩, ht.unbroken_of_first found⟩
      · exact nomatch (expression (not_exists.1 single)).2
    | none =>
      rw [variableOf_none found] at literal
      exact .inr ⟨fun t ht => (nomatch (literal t ht).2), by decide⟩
  · rintro (⟨⟨t, ht⟩, unbroken⟩ | ⟨other, none⟩)
    · have first (u : List Char) (hu : IsLiteral text u) : firstLiteral? text = some u := by
        have front := hu.first unbroken []
        rwa [List.append_nil] at front
      refine ⟨fun u hu => ?_, fun other => absurd ht (other t)⟩
      rw [variableOf_some (first u hu)]
      exact ⟨rfl, rfl⟩
    · rw [Option.not_isSome_iff_eq_none] at none
      rw [variableOf_none none]
      exact ⟨fun t ht => absurd ht (other t), fun _ => ⟨rfl, rfl⟩⟩

/-- The value of a variable is taken as it is written exactly if it is a literal without an escaped
line break, or else if no such literal can be read anywhere in it. Where no line break is escaped, it
is taken as it is written if it is a literal or has no quote at all, and only then. -/
theorem value_taken_iff {c : MethodCall} {key value : String} {rest : List String}
    (args : c.args = key :: value :: rest) (closed : Place.code.after value.toList = .code) :
    ∃ v, c.environmentVariable? = some v ∧
      (Takes value.toList v ↔
        (∃ t, IsLiteral value.toList t) ∧ Unbroken value.toList ∨
        (∀ t, ¬ IsLiteral value.toList t) ∧
          ¬ ∃ lit, lit <:+: value.toList ∧ (∃ t, IsLiteral lit t) ∧ Unbroken lit) ∧
      (Unbroken value.toList →
        (Takes value.toList v ↔ (∃ t, IsLiteral value.toList t) ∨ Unquoted value.toList)) := by
  refine ⟨variableOf (String.ofList ((argumentText? key.toList).getD [])) value.toList, ?_,
    takes_variableOf_iff _ _, fun unbroken => ?_⟩
  · rw [MethodCall.environmentVariable?, args]
    cases found : firstLiteral? value.toList with
    | some t => simp only [found, variableOf_some found]
    | none => simp only [found, variableOf_none found, trimmed]
  · rw [takes_variableOf_iff, holds_literal_iff closed unbroken, not_not]
    rw [← not_exists]
    tauto

/-- A password that is looked up, and one that is given. -/
def lookedUp : MethodCall :=
  .ofText "WithEnvironment".toList "\"PASSWORD\", config[\"Db:Password\"]".toList

def given : MethodCall :=
  .ofText "WithEnvironment".toList "\"PASSWORD\", \"secret\"".toList

theorem not_isLiteral_lookup (t : List Char) : ¬ IsLiteral "config[\"Db:Password\"]".toList t := by
  intro literal
  obtain ⟨q, hq, head⟩ := literal.head?
  obtain rfl : 'c' = q := Option.some.inj head
  cases hq

theorem given_taken_lookedUp_not :
    (∃ v, given.environmentVariable? = some v ∧ Takes "\"secret\"".toList v) ∧
      ∃ v, lookedUp.environmentVariable? = some v ∧
        ¬ Takes "config[\"Db:Password\"]".toList v := by
  have args : given.args = ["\"PASSWORD\"", "\"secret\""] := by decide +kernel
  obtain ⟨v, read, -, taken⟩ := value_taken_iff args (by decide +kernel)
  have args' : lookedUp.args = ["\"PASSWORD\"", "config[\"Db:Password\"]"] := by decide +kernel
  obtain ⟨w, read', -, taken'⟩ := value_taken_iff args' (by decide +kernel)
  have single : IsLiteral "\"secret\"".toList "secret".toList :=
    ⟨'"', rfl, rfl, by rw [Place.Within]; decide +kernel, by decide +kernel⟩
  refine ⟨⟨v, read, ?_⟩, w, read', fun takes => ?_⟩
  · exact (taken (unbroken_of_not_mem (by decide +kernel))).2 (.inl ⟨_, single⟩)
  · rcases (taken' (unbroken_of_not_mem (by decide +kernel))).1 takes with ⟨t, literal⟩ | plain
    · exact not_isLiteral_lookup t literal
    · exact absurd plain (by decide +kernel)

/-- The key of a lookup is taken for the value that is looked up. -/
theorem lookup_key_read_as_value :
    lookedUp.args = ["\"PASSWORD\"", "config[\"Db:Password\"]"] ∧
      Enclosed "config[\"Db:Password\"]".toList ∧
      lookedUp.environmentVariable? = some ⟨"PASSWORD", "Db:Password", false⟩ ∧
      ¬ Takes "config[\"Db:Password\"]".toList ⟨"PASSWORD", "Db:Password", false⟩ := by
  have laid : ArgumentText "config[\"Db:Password\"]".toList := by decide +kernel
  exact ⟨by decide +kernel, laid.enclosed, by decide +kernel,
    fun taken => nomatch (taken.expression not_isLiteral_lookup).2⟩

end HostPlan.Declaration
