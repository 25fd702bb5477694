import Mathlib.Data.Bool.AllAny
import HostPlan.Plan.Operation
import HostPlan.Data.Json.Printer
import HostPlan.Data.Json.Reader
import HostPlan.Proofs.Text.Lines
/-!
JSON text that is written in printable ASCII. A payload, written field by field on lines of their
own, is made of the lines of its braces and of indented lines.
-/
namespace HostPlan.Json

open Text

/-- A character is written with one letter behind a backslash, or in units of sixteen bits, or as it
is. -/
theorem printChar_forms (ascii : Bool) (c : Char) :
    (∃ e ∈ ['"', '\\', 'n', 'r', 't', 'b', 'f'], printChar ascii c = ['\\', e] ∧
      plainEscape? e = some c) ∨
    printChar ascii c = charEscape c ∨
    (printChar ascii c = [c] ∧ 32 ≤ c.toNat ∧ (ascii = true → c.toNat ≤ 126) ∧
      c ≠ '"' ∧ c ≠ '\\') := by
  unfold printChar
  split
  · rename_i same
    exact .inl ⟨'"', by decide, rfl, by rw [same]; rfl⟩
  split
  · rename_i same
    exact .inl ⟨'\\', by decide, rfl, by rw [same]; rfl⟩
  split
  · rename_i same
    exact .inl ⟨'n', by decide, rfl, by rw [same]; rfl⟩
  split
  · rename_i same
    exact .inl ⟨'r', by decide, rfl, by rw [same]; rfl⟩
  split
  · rename_i same
    exact .inl ⟨'t', by decide, rfl, by rw [same]; rfl⟩
  split
  · rename_i same
    exact .inl ⟨'b', by decide, rfl, by rw [same]; rfl⟩
  split
  · rename_i same
    exact .inl ⟨'f', by decide, rfl, by rw [same]; rfl⟩
  split
  · exact .inr (.inl rfl)
  · rename_i quote backslash _ _ _ _ _ plain
    simp only [Bool.or_eq_true, Bool.and_eq_true, decide_eq_true_eq, not_or, not_and,
      Nat.not_lt] at plain
    exact .inr (.inr ⟨rfl, plain.1, plain.2, quote, backslash⟩)

/-- A character of ASCII that is neither a control nor a line break. -/
def IsPrinted (c : Char) : Prop := 32 ≤ c.toNat ∧ c.toNat ≤ 126

instance (c : Char) : Decidable (IsPrinted c) := inferInstanceAs (Decidable (_ ∧ _))

theorem break_not_mem {s : List Char} (h : ∀ c ∈ s, IsPrinted c) : '\n' ∉ s := by
  intro mem
  exact absurd (h _ mem) (by decide)

theorem printed_hexDigit (n : Nat) : IsPrinted (hexDigit n) := by
  have all : ∀ c ∈ "0123456789abcdef".toList, IsPrinted c :=
    List.all_iff_forall_prop.1 rfl
  have zero : IsPrinted '0' := by decide
  unfold hexDigit
  rw [List.getD_eq_getElem?_getD]
  cases h : "0123456789abcdef".toList[n]? with
  | none => exact zero
  | some c => exact all c (List.mem_of_getElem? h)

theorem printed_unitEscape (n : Nat) : ∀ c ∈ unitEscape n, IsPrinted c := by
  have opening : IsPrinted '\\' ∧ IsPrinted 'u' := by decide
  simp [unitEscape, printed_hexDigit, opening]

theorem printed_charEscape (c : Char) : ∀ d ∈ charEscape c, IsPrinted d := by
  simp only [charEscape]
  split
  · exact printed_unitEscape _
  · exact List.forall_mem_append.2 ⟨printed_unitEscape _, printed_unitEscape _⟩

theorem printed_printChar (c : Char) : ∀ d ∈ printChar true c, IsPrinted d := by
  have backslash : IsPrinted '\\' := by decide
  have short : ∀ e ∈ ['"', '\\', 'n', 'r', 't', 'b', 'f'], IsPrinted e :=
    List.all_iff_forall_prop.1 rfl
  rcases printChar_forms true c with ⟨e, he, form, -⟩ | form | ⟨form, low, high, -⟩
  · simp [form, backslash, short e he]
  · rw [form]
    exact printed_charEscape c
  · rw [form]
    exact List.forall_mem_singleton.2 ⟨low, high rfl⟩

theorem printed_printString (s : String) : ∀ c ∈ printString true s, IsPrinted c := by
  have quote : IsPrinted '"' := by decide
  intro c hc
  simp only [printString, List.mem_cons, List.mem_append, List.mem_flatMap, List.not_mem_nil,
    or_false] at hc
  rcases hc with rfl | ⟨d, _, hd⟩ | rfl
  · exact quote
  · exact printed_printChar d c hd
  · exact quote

theorem printed_decimal (n : Nat) : ∀ c ∈ decimal n, IsPrinted c := by
  intro c hc
  have digit := Nat.isDigit_of_mem_toDigits (by decide) (by decide) hc
  obtain ⟨low, high⟩ := Char.isDigit_iff_toNat.1 digit
  exact ⟨Nat.le_trans (by decide) low, Nat.le_trans high (by decide)⟩

theorem printed_scalar (level : Nat) (v : Scalar) :
    ∀ c ∈ print indented level (.ofScalar v), IsPrinted c := by
  cases v with
  | null => exact List.all_iff_forall_prop.1 rfl
  | flag b => cases b <;> exact List.all_iff_forall_prop.1 rfl
  | number i =>
    have minus : IsPrinted '-' := by decide
    cases i with
    | ofNat n => exact printed_decimal n
    | negSucc n => exact List.forall_mem_cons.2 ⟨minus, printed_decimal (n + 1)⟩
  | text s => exact printed_printString s

/-- A field on its line. -/
def fieldLine (f : String × Scalar) : List Char :=
  ' ' :: ' ' :: (printString true f.1 ++ ':' :: ' ' :: print indented 1 (.ofScalar f.2))

theorem printed_fieldLine (f : String × Scalar) : ∀ c ∈ fieldLine f, IsPrinted c := by
  have blank : IsPrinted ' ' := by decide
  have colon : IsPrinted ':' := by decide
  simp only [fieldLine, List.forall_mem_cons, List.forall_mem_append]
  exact ⟨blank, blank, printed_printString f.1, colon, blank, printed_scalar 1 f.2⟩

/-- The lines of a payload behind its opening brace. Every field but the last one has a comma. -/
def fieldLines : Payload → List (List Char)
  | [] => [['}']]
  | [f] => [fieldLine f, ['}']]
  | f :: g :: rest => (fieldLine f ++ [',']) :: fieldLines (g :: rest)

def payloadLines : Payload → List (List Char)
  | [] => [['{', '}']]
  | f :: rest => ['{'] :: fieldLines (f :: rest)

theorem printed_comma (f : String × Scalar) : ∀ c ∈ fieldLine f ++ [','], IsPrinted c :=
  List.forall_mem_append.2 ⟨printed_fieldLine f, List.all_iff_forall_prop.1 rfl⟩

theorem cutAt_fields (f : String × Scalar) (rest : Payload) :
    cutAt '\n' (fieldLine f ++
      (printFields indented 1 (rest.map fun f => (f.1, Value.ofScalar f.2)) ++ ['\n', '}'])) =
      fieldLines (f :: rest) := by
  induction rest generalizing f with
  | nil =>
    rw [List.map_nil, printFields, List.nil_append, cutAt_append_cons,
      cutAt_of_not_mem (break_not_mem (printed_fieldLine f)), cutAt_of_not_mem (by decide)]
    rfl
  | cons g rest ih =>
    have parts : fieldLine f ++ (printFields indented 1
          ((g :: rest).map fun f => (f.1, Value.ofScalar f.2)) ++ ['\n', '}']) =
        (fieldLine f ++ [',']) ++ '\n' :: (fieldLine g ++
          (printFields indented 1 (rest.map fun f => (f.1, Value.ofScalar f.2)) ++
            ['\n', '}'])) := by
      simp [printFields, fieldLine, indented, Layout.newline, List.replicate]
    rw [parts, cutAt_append_cons, cutAt_of_not_mem (break_not_mem (printed_comma f)), ih g]
    rfl

/-- A payload is written one field on a line. -/
theorem cutAt_payload (p : Payload) :
    cutAt '\n' (print indented 0 (Payload.toValue p)) = payloadLines p := by
  cases p with
  | nil => decide
  | cons f rest =>
    have parts : print indented 0 (Payload.toValue (f :: rest)) =
        ['{'] ++ '\n' :: (fieldLine f ++
          (printFields indented 1 (rest.map fun f => (f.1, Value.ofScalar f.2)) ++
            ['\n', '}'])) := by
      simp [Payload.toValue, print, fieldLine, indented, Layout.newline, List.replicate]
    rw [parts, cutAt_append_cons, cutAt_fields, cutAt_of_not_mem (by decide)]
    rfl

theorem mem_fieldLines {p : Payload} {line : List Char} (h : line ∈ fieldLines p) :
    line = ['}'] ∨ ∃ f ∈ p, line = fieldLine f ∨ line = fieldLine f ++ [','] := by
  induction p with
  | nil => exact Or.inl (List.mem_singleton.1 h)
  | cons f rest ih =>
    cases rest with
    | nil =>
      rcases List.mem_cons.1 h with rfl | h
      · exact Or.inr ⟨f, List.mem_cons_self, Or.inl rfl⟩
      · exact Or.inl (List.mem_singleton.1 h)
    | cons g rest =>
      rcases List.mem_cons.1 h with rfl | h
      · exact Or.inr ⟨f, List.mem_cons_self, Or.inr rfl⟩
      · rcases ih h with last | ⟨f', mem, whole⟩
        · exact Or.inl last
        · exact Or.inr ⟨f', List.mem_cons_of_mem f mem, whole⟩

/-- A line of a payload is printable, and begins with a brace or is indented. -/
theorem printed_payloadLines (p : Payload) : ∀ line ∈ payloadLines p,
    (∀ c ∈ line, IsPrinted c) ∧ line.head? ∈ [some '{', some ' ', some '}'] := by
  intro line h
  cases p with
  | nil =>
    obtain rfl := List.mem_singleton.1 h
    exact ⟨List.all_iff_forall_prop.1 rfl, by decide⟩
  | cons f rest =>
    rcases List.mem_cons.1 h with rfl | h
    · exact ⟨List.all_iff_forall_prop.1 rfl, by decide⟩
    · rcases mem_fieldLines h with rfl | ⟨f', _, rfl | rfl⟩
      · exact ⟨List.all_iff_forall_prop.1 rfl, by decide⟩
      · exact ⟨printed_fieldLine f', by simp [fieldLine]⟩
      · exact ⟨printed_comma f', by simp [fieldLine]⟩

end HostPlan.Json
