import Mathlib.Data.List.Infix
import HostPlan.Data.Json.Printer
import HostPlan.Plan.Operation
import HostPlan.Proofs.Data.Printed
import HostPlan.Proofs.Plan.HereDocument
/-!
Which placeholders a text mentions. A printed payload mentions those that its keys and values
mention and no other, in whatever layout it is printed: an occurrence begins with a dollar sign,
which only a string literal can hold, and it cannot reach over the quote at the literal's end.
-/
namespace HostPlan

namespace Text

variable {c : Char} {x a b : List Char}

theorem prefix_append_cons_iff (h : c ∉ x) : x <+: a ++ c :: b ↔ x <+: a := by
  constructor
  · intro whole
    induction x generalizing a with
    | nil => exact List.nil_prefix
    | cons d x ih =>
      cases a with
      | nil =>
        obtain ⟨rfl, _⟩ := List.cons_prefix_cons.1 whole
        exact absurd List.mem_cons_self h
      | cons e a =>
        obtain ⟨rfl, rest⟩ := List.cons_prefix_cons.1 whole
        have inner := ih (fun mem => h (List.mem_cons_of_mem d mem)) rest
        exact List.cons_prefix_cons.2 ⟨rfl, inner⟩
  · exact List.prefix_append_of_prefix

/-- A piece lies on one side of a character that it does not hold. -/
theorem infix_append_cons_iff (h : c ∉ x) : x <:+: a ++ c :: b ↔ x <:+: a ∨ x <:+: b := by
  induction a with
  | nil =>
    have here : x <+: c :: b ↔ x <+: [] := prefix_append_cons_iff (a := []) h
    rw [List.nil_append, List.infix_cons_iff, here, List.prefix_nil, List.infix_nil]
  | cons d a ih =>
    have here : x <+: d :: (a ++ c :: b) ↔ x <+: d :: a := prefix_append_cons_iff (a := d :: a) h
    rw [List.cons_append, List.infix_cons_iff, here, ih, List.infix_cons_iff, or_assoc]

/-- A piece does not begin where its first character is missing. -/
theorem infix_append_of_not_mem (h : c ∉ a) : c :: x <:+: a ++ b ↔ c :: x <:+: b := by
  induction a with
  | nil => rfl
  | cons d a ih =>
    obtain ⟨other, rest⟩ := List.ne_and_not_mem_of_not_mem_cons h
    have here : ¬ c :: x <+: d :: (a ++ b) := fun begun => other (List.cons_prefix_cons.1 begun).1
    rw [List.cons_append, List.infix_cons_iff, ih rest, or_iff_right here]

end Text

namespace Placeholder

open Text

def StandsIn (p : Placeholder) (s : List Char) : Prop := p.text.toList <:+: s

variable {p : Placeholder} {s t : List Char}

theorem holds_iff_standsIn : Text.holds p.text.toList s = true ↔ p.StandsIn s :=
  Text.holds_iff ..

@[simp] theorem not_standsIn_nil : ¬ p.StandsIn [] := by
  intro h
  have empty := List.infix_nil.1 h
  rw [toList_text] at empty
  cases empty

theorem standsIn_append_of_not_mem (h : '$' ∉ s) : p.StandsIn (s ++ t) ↔ p.StandsIn t := by
  unfold StandsIn
  rw [toList_text]
  exact infix_append_of_not_mem h

theorem not_standsIn_of_not_mem (h : '$' ∉ s) : ¬ p.StandsIn s := by
  intro mentioned
  rw [← List.append_nil s, standsIn_append_of_not_mem h] at mentioned
  exact not_standsIn_nil mentioned

theorem standsIn_quote : p.StandsIn (s ++ '"' :: t) ↔ p.StandsIn s ∨ p.StandsIn t := by
  have quote : '"' ∉ p.text.toList := by cases p <;> decide
  exact infix_append_cons_iff quote

/-- A key or a value of the payload mentions the placeholder. -/
def OccursIn (p : Placeholder) (o : Payload) : Prop :=
  ∃ f ∈ o, p.StandsIn f.1.toList ∨ p.StandsIn f.2.display.toList

end Placeholder

namespace Json

variable {p : Placeholder}

theorem printChar_cases (c : Char) :
    printChar true c = [c] ∨ ∃ r, printChar true c = '\\' :: r ∧ '$' ∉ r := by
  have digit (n : Nat) : hexDigit n ≠ '$' := by
    have all : "0123456789abcdef".toList.all (· != '$') = true := by decide
    unfold hexDigit
    rw [List.getD_eq_getElem?_getD]
    cases h : "0123456789abcdef".toList[n]? with
    | none => decide
    | some c => exact bne_iff_ne.1 (List.all_eq_true.1 all c (List.mem_of_getElem? h))
  have unit (n : Nat) : '$' ∉ unitEscape n := by
    simp [unitEscape, fun n => (digit n).symm]
  have short : ∀ e ∈ ['"', '\\', 'n', 'r', 't', 'b', 'f'], '$' ∉ [e] := by simp
  rcases printChar_forms true c with ⟨e, he, form, -⟩ | form | ⟨form, -⟩
  · exact .inr ⟨[e], form, short e he⟩
  · right
    rw [form, charEscape]
    split
    · exact ⟨_, rfl, fun mem => unit _ (List.mem_cons_of_mem _ mem)⟩
    · refine ⟨_, rfl, fun mem => ?_⟩
      rcases List.mem_append.1 mem with mem | mem
      · exact unit _ (List.mem_cons_of_mem _ mem)
      · exact unit _ mem
  · exact .inl form

/-- A piece without escapes begins a printed text only if it begins the text. -/
theorem prefix_printed_iff {x s : List Char} (plain : ∀ c ∈ x, printChar true c = [c]) :
    x <+: s.flatMap (printChar true) ↔ x <+: s := by
  induction x generalizing s with
  | nil => simp
  | cons d x ih =>
    have unescaped := plain d List.mem_cons_self
    have rest := fun s => ih (s := s) fun c hc => plain c (List.mem_cons_of_mem d hc)
    cases s with
    | nil => simp
    | cons c s =>
      rw [List.flatMap_cons, List.cons_prefix_cons]
      constructor
      · intro begun
        rcases printChar_cases c with own | ⟨r, escape, _⟩
        · rw [own] at begun
          obtain ⟨same, begun⟩ := List.cons_prefix_cons.1 begun
          exact ⟨same, (rest s).1 begun⟩
        · rw [escape] at begun
          obtain ⟨rfl, _⟩ := List.cons_prefix_cons.1 begun
          exact absurd unescaped (by decide)
      · rintro ⟨rfl, begun⟩
        rw [unescaped]
        exact List.cons_prefix_cons.2 ⟨rfl, (rest s).2 begun⟩

theorem plain_placeholder (p : Placeholder) : ∀ c ∈ p.text.toList, printChar true c = [c] := by
  have all : (p.text.toList.all fun c => printChar true c == [c]) = true := by
    cases p <;> decide
  intro c hc
  exact beq_iff_eq.1 (List.all_eq_true.1 all c hc)

theorem standsIn_printed (s : List Char) :
    p.StandsIn (s.flatMap (printChar true)) ↔ p.StandsIn s := by
  induction s with
  | nil => rfl
  | cons c s ih =>
    have whole : p.StandsIn (c :: s) ↔ p.text.toList <+: c :: s ∨ p.StandsIn s := List.infix_cons_iff
    have begins := prefix_printed_iff (s := c :: s) (plain_placeholder p)
    rw [whole, ← begins, List.flatMap_cons]
    rcases printChar_cases c with own | ⟨r, escape, calm⟩
    · rw [own, ← ih]
      exact List.infix_cons_iff
    · have dollar : '$' ∉ '\\' :: r := List.not_mem_cons_of_ne_of_not_mem (by decide) calm
      rw [escape, Placeholder.standsIn_append_of_not_mem dollar, ih]
      refine (or_iff_right fun begun => ?_).symm
      rw [p.toList_text] at begun
      exact absurd (List.cons_prefix_cons.1 begun).1 (by decide)

theorem standsIn_printString (s : String) (r : List Char) :
    p.StandsIn (printString true s ++ r) ↔ p.StandsIn s.toList ∨ p.StandsIn r := by
  have parts : printString true s ++ r =
      ['"'] ++ (s.toList.flatMap (printChar true) ++ '"' :: r) := by simp [printString]
  rw [parts, Placeholder.standsIn_append_of_not_mem (by decide), Placeholder.standsIn_quote,
    standsIn_printed]

theorem dollar_not_mem_decimalInt (i : Int) : '$' ∉ Text.decimalInt i := by
  have digits (n : Nat) : '$' ∉ Text.decimal n := by
    intro mem
    exact absurd (Nat.isDigit_of_mem_toDigits (by decide) (by decide) mem) (by decide)
  cases i with
  | ofNat n => exact digits n
  | negSucc n => exact List.not_mem_cons_of_ne_of_not_mem (by decide) (digits (n + 1))

section Layout

variable {l : Layout}

/-- Between its strings the layout writes no dollar sign. -/
structure Layout.Calm (l : Layout) : Prop where
  ascii : l.ascii = true
  comma : '$' ∉ l.comma
  colon : '$' ∉ l.colon

theorem calm_spaced : spaced.Calm := ⟨rfl, by decide, by decide⟩

theorem calm_indented : indented.Calm := ⟨rfl, by decide, by decide⟩

theorem Layout.dollar_not_mem_newline (l : Layout) (level : Nat) : '$' ∉ l.newline level := by
  unfold newline
  split
  · exact List.not_mem_nil
  · intro mem
    rcases List.mem_cons.1 mem with same | mem
    · exact absurd same (by decide)
    · exact absurd (List.eq_of_mem_replicate mem) (by decide)

theorem Layout.Calm.between (calm : l.Calm) (level : Nat) : '$' ∉ l.comma ++ l.newline level :=
  List.not_mem_append calm.comma (l.dollar_not_mem_newline level)

theorem standsIn_scalar (calm : l.Calm) (level : Nat) (v : Scalar) (r : List Char) :
    p.StandsIn (print l level (.ofScalar v) ++ r) ↔
      p.StandsIn v.display.toList ∨ p.StandsIn r := by
  -- A value that is no text shows no dollar sign, printed or displayed.
  have bare {s t : List Char} (hs : '$' ∉ s) (ht : '$' ∉ t) :
      p.StandsIn (s ++ r) ↔ p.StandsIn t ∨ p.StandsIn r := by
    rw [Placeholder.standsIn_append_of_not_mem hs,
      or_iff_right (Placeholder.not_standsIn_of_not_mem ht)]
  cases v with
  | null => exact bare (by rw [Value.ofScalar, print]; decide) (by decide)
  | flag b =>
    cases b with
    | false => exact bare (by rw [Value.ofScalar, print]; decide) (by decide)
    | true => exact bare (by rw [Value.ofScalar, print]; decide) (by decide)
  | number i =>
    have digits := dollar_not_mem_decimalInt i
    refine bare (by rwa [Value.ofScalar, print]) ?_
    rwa [Scalar.display, String.toList_ofList]
  | text s =>
    rw [Value.ofScalar, print, calm.ascii]
    exact standsIn_printString s r

theorem standsIn_field (calm : l.Calm) (level : Nat) (f : String × Scalar) (r : List Char) :
    p.StandsIn (printString l.ascii f.1 ++ l.colon ++ print l level (.ofScalar f.2) ++ r) ↔
      (p.StandsIn f.1.toList ∨ p.StandsIn f.2.display.toList) ∨ p.StandsIn r := by
  rw [calm.ascii, List.append_assoc, List.append_assoc, standsIn_printString,
    Placeholder.standsIn_append_of_not_mem calm.colon, standsIn_scalar calm, or_assoc]

theorem standsIn_fields (calm : l.Calm) (level : Nat) (o : Payload) (r : List Char) :
    p.StandsIn (printFields l level (o.map fun f => (f.1, Value.ofScalar f.2)) ++ r) ↔
      p.OccursIn o ∨ p.StandsIn r := by
  induction o with
  | nil => simp [printFields, Placeholder.OccursIn]
  | cons f o ih =>
    have parts : printFields l level ((f :: o).map fun f => (f.1, Value.ofScalar f.2)) ++ r =
        (l.comma ++ l.newline level) ++
          (printString l.ascii f.1 ++ l.colon ++ print l level (.ofScalar f.2) ++
            (printFields l level (o.map fun f => (f.1, Value.ofScalar f.2)) ++ r)) := by
      simp [printFields]
    rw [parts, Placeholder.standsIn_append_of_not_mem (calm.between level), standsIn_field calm, ih]
    simp [Placeholder.OccursIn, or_assoc]

theorem standsIn_payload (calm : l.Calm) (level : Nat) (o : Payload) (r : List Char) :
    p.StandsIn (print l level (Payload.toValue o) ++ r) ↔ p.OccursIn o ∨ p.StandsIn r := by
  cases o with
  | nil =>
    have braces : print l level (Payload.toValue []) = ['{', '}'] := by
      rw [Payload.toValue, List.map_nil, print]
    rw [braces, Placeholder.standsIn_append_of_not_mem (by decide)]
    simp [Placeholder.OccursIn]
  | cons f o =>
    have parts : print l level (Payload.toValue (f :: o)) ++ r =
        ('{' :: l.newline (level + 1)) ++
          (printString l.ascii f.1 ++ l.colon ++ print l (level + 1) (.ofScalar f.2) ++
            (printFields l (level + 1) (o.map fun f => (f.1, Value.ofScalar f.2)) ++
              ((l.newline level ++ ['}']) ++ r))) := by
      simp [Payload.toValue, print]
    have opening : '$' ∉ '{' :: l.newline (level + 1) :=
      List.not_mem_cons_of_ne_of_not_mem (by decide) (l.dollar_not_mem_newline _)
    have closing : '$' ∉ l.newline level ++ ['}'] :=
      List.not_mem_append (l.dollar_not_mem_newline level) (by decide)
    rw [parts, Placeholder.standsIn_append_of_not_mem opening, standsIn_field calm,
      standsIn_fields calm, Placeholder.standsIn_append_of_not_mem closing]
    simp [Placeholder.OccursIn, or_assoc]

theorem standsIn_items (calm : l.Calm) (level : Nat) (os : List Payload) (r : List Char) :
    p.StandsIn (printItems l level (os.map Payload.toValue) ++ r) ↔
      (∃ o ∈ os, p.OccursIn o) ∨ p.StandsIn r := by
  induction os with
  | nil => simp [printItems]
  | cons o os ih =>
    have parts : printItems l level ((o :: os).map Payload.toValue) ++ r =
        (l.comma ++ l.newline level) ++ (print l level (Payload.toValue o) ++
          (printItems l level (os.map Payload.toValue) ++ r)) := by
      simp [printItems]
    rw [parts, Placeholder.standsIn_append_of_not_mem (calm.between level), standsIn_payload calm,
      ih]
    simp [or_assoc]

theorem standsIn_payloads (calm : l.Calm) (level : Nat) (os : List Payload) (r : List Char) :
    p.StandsIn (print l level (.list (os.map Payload.toValue)) ++ r) ↔
      (∃ o ∈ os, p.OccursIn o) ∨ p.StandsIn r := by
  cases os with
  | nil =>
    rw [List.map_nil, print, Placeholder.standsIn_append_of_not_mem (by decide)]
    simp
  | cons o os =>
    have parts : print l level (.list ((o :: os).map Payload.toValue)) ++ r =
        ('[' :: l.newline (level + 1)) ++ (print l (level + 1) (Payload.toValue o) ++
          (printItems l (level + 1) (os.map Payload.toValue) ++
            ((l.newline level ++ [']']) ++ r))) := by
      simp [print]
    have opening : '$' ∉ '[' :: l.newline (level + 1) :=
      List.not_mem_cons_of_ne_of_not_mem (by decide) (l.dollar_not_mem_newline _)
    have closing : '$' ∉ l.newline level ++ [']'] :=
      List.not_mem_append (l.dollar_not_mem_newline level) (by decide)
    rw [parts, Placeholder.standsIn_append_of_not_mem opening, standsIn_payload calm,
      standsIn_items calm, Placeholder.standsIn_append_of_not_mem closing]
    simp [or_assoc]

end Layout
end Json
end HostPlan
