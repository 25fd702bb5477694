import HostPlan.Data.Json.Printer
import HostPlan.Data.Json.Reader
import HostPlan.Proofs.Data.Printed
import HostPlan.Proofs.Data.WellFormed
import Mathlib.Tactic.IntervalCases
/-!
What JSON text says is what was printed: the reader takes every well-formed value from its text, in
whatever layout, as long as no numeral is longer than it accepts. What stands behind a value is left
to be read, so the parts of a list and of a record are read one after another.
-/
namespace HostPlan.Json

section Strings

theorem hexValue?_hexDigit : ∀ n < 16, hexValue? (hexDigit n) = some n := by decide

theorem readUnit?_digits {n : Nat} (small : n < 65536) (r : List Char) :
    readUnit? (hexDigit (n / 4096 % 16) :: hexDigit (n / 256 % 16) :: hexDigit (n / 16 % 16) ::
      hexDigit (n % 16) :: r) = some (n, r) := by
  have digit (m : Nat) : hexValue? (hexDigit (m % 16)) = some (m % 16) :=
    hexValue?_hexDigit (m % 16) (Nat.mod_lt m (by decide))
  have whole : 4096 * (n / 4096 % 16) + 256 * (n / 256 % 16) + 16 * (n / 16 % 16) + n % 16 = n := by
    omega
  simp [readUnit?, digit, whole]

theorem joinUnits_of_basic {c : Char} (basic : c.toNat < 0x10000) (r : List Char) :
    joinUnits c.toNat r = (c, r) := by
  have valid : c.toNat < 0xD800 ∨ 0xE000 ≤ c.toNat := by
    rcases c.valid with low | high
    · exact .inl low
    · exact .inr high.1
  have noHigh : ¬ (0xD800 ≤ c.toNat ∧ c.toNat < 0xDC00) := by omega
  have noLow : ¬ (0xDC00 ≤ c.toNat ∧ c.toNat < 0xE000) := by omega
  unfold joinUnits
  rw [if_neg noHigh, if_neg noLow, Char.ofNat_toNat]

theorem toNat_lt (c : Char) : c.toNat < 0x110000 := by
  rcases c.valid with low | high
  · exact Nat.lt_trans low (by decide)
  · exact high.2

theorem joinUnits_of_surrogates {high low : Nat} (first : 0xD800 ≤ high ∧ high < 0xDC00)
    (second : 0xDC00 ≤ low ∧ low < 0xE000) (r : List Char) :
    joinUnits high (unitEscape low ++ r) =
      (Char.ofNat (0x10000 + (high - 0xD800) * 0x400 + (low - 0xDC00)), r) := by
  simp only [joinUnits, unitEscape, List.cons_append, List.nil_append]
  rw [if_pos first, readUnit?_digits (Nat.lt_trans second.2 (by decide))]
  simp only
  rw [if_pos second]

/-- The two units of a character beyond the basic ones are joined again. -/
theorem joinUnits_of_pair {c : Char} (beyond : 0x10000 ≤ c.toNat) (r : List Char) :
    joinUnits (0xD800 + (c.toNat - 0x10000) / 0x400)
      (unitEscape (0xDC00 + (c.toNat - 0x10000) % 0x400) ++ r) = (c, r) := by
  have last := toNat_lt c
  rw [joinUnits_of_surrogates (by omega) (by omega)]
  have whole : 0x10000 + (0xD800 + (c.toNat - 0x10000) / 0x400 - 0xD800) * 0x400 +
      (0xDC00 + (c.toNat - 0x10000) % 0x400 - 0xDC00) = c.toNat := by omega
  rw [whole, Char.ofNat_toNat]

theorem readString?_escape {e c : Char} (known : plainEscape? e = some c) (h : e ≠ 'u') (fuel : Nat)
    (r : List Char) : readString? (fuel + 1) ('\\' :: e :: r) =
      (readString? fuel r).map fun p => (c :: p.1, p.2) := by
  rw [readString?]
  · rw [known]
    cases readString? fuel r <;> rfl
  · exact h

theorem readString?_unit {n : Nat} (small : n < 65536) {c : Char} {r t : List Char}
    (joined : joinUnits n r = (c, t)) (fuel : Nat) : readString? (fuel + 1) (unitEscape n ++ r) =
      (readString? fuel t).map fun p => (c :: p.1, p.2) := by
  simp only [unitEscape, List.cons_append, List.nil_append]
  rw [readString?_code, readUnit?_digits small, Option.bind_some, joined]
  exact Option.map_eq_bind.symm

theorem readString?_charEscape (c : Char) (fuel : Nat) (r : List Char) :
    readString? (fuel + 1) (charEscape c ++ r) =
      (readString? fuel r).map fun p => (c :: p.1, p.2) := by
  simp only [charEscape]
  split
  · rename_i basic
    exact readString?_unit basic (joinUnits_of_basic basic r) fuel
  · rename_i beyond
    have last := toNat_lt c
    rw [List.append_assoc]
    exact readString?_unit (by omega) (joinUnits_of_pair (by omega) r) fuel

/-- A printed character is read as one, in one step. -/
theorem readString?_printChar (ascii : Bool) (c : Char) (fuel : Nat) (r : List Char) :
    readString? (fuel + 1) (printChar ascii c ++ r) =
      (readString? fuel r).map fun p => (c :: p.1, p.2) := by
  have short : ∀ e ∈ ['"', '\\', 'n', 'r', 't', 'b', 'f'], e ≠ 'u' := by simp
  rcases printChar_forms ascii c with ⟨e, he, form, known⟩ | form | ⟨form, low, -, quote, backslash⟩
  · rw [form]
    exact readString?_escape known (short e he) fuel r
  · rw [form]
    exact readString?_charEscape c fuel r
  · have visible : ¬ (c.toNat < 32 ∨ c = '\\') := not_or.2 ⟨Nat.not_lt.2 low, backslash⟩
    rw [form, List.singleton_append, readString?, if_neg visible]
    · cases readString? fuel r <;> rfl
    · exact quote
    · exact fun _ same _ => backslash same
    · exact fun _ _ same _ => backslash same

theorem printChar_ne_nil (ascii : Bool) (c : Char) : printChar ascii c ≠ [] := by
  intro empty
  have read := readString?_printChar ascii c 0 ['"']
  rw [empty] at read
  cases read

theorem length_le_printed (ascii : Bool) (s : List Char) :
    s.length ≤ (s.flatMap (printChar ascii)).length := by
  induction s with
  | nil => exact Nat.le_refl 0
  | cons c s ih =>
    have one := List.length_pos_of_ne_nil (printChar_ne_nil ascii c)
    rw [List.flatMap_cons, List.length_append, List.length_cons]
    omega

theorem readString?_printed (ascii : Bool) {s : List Char} {fuel : Nat} (enough : s.length ≤ fuel)
    (r : List Char) : readString? fuel (s.flatMap (printChar ascii) ++ '"' :: r) = some (s, r) := by
  induction s generalizing fuel with
  | nil =>
    rw [List.flatMap_nil, List.nil_append]
    cases fuel <;> rfl
  | cons c s ih =>
    obtain ⟨fuel, rfl⟩ := Nat.exists_eq_add_one.2 (Nat.lt_of_lt_of_le (Nat.succ_pos _) enough)
    rw [List.flatMap_cons, List.append_assoc, readString?_printChar,
      ih (Nat.le_of_succ_le_succ enough)]
    rfl

theorem readString?_printString (ascii : Bool) (s : String) (r : List Char) :
    ∃ t, printString ascii s ++ r = '"' :: t ∧
      readString? t.length t = some (s.toList, r) := by
  refine ⟨s.toList.flatMap (printChar ascii) ++ '"' :: r, by simp [printString], ?_⟩
  -- The reader takes one step a character of the string, and has one for each that is written.
  have enough := length_le_printed ascii s.toList
  exact readString?_printed ascii (by rw [List.length_append]; omega) r

end Strings

section Numbers

open Text

variable {n : Nat} {r : List Char}

/-- No numeral goes on with this text. -/
def EndsNumeral (r : List Char) : Prop :=
  ∀ c ∈ r.head?, c.isDigit = false ∧ c ≠ '.' ∧ c ≠ 'e' ∧ c ≠ 'E'

/-- A number whose numeral is read. -/
def IsShort (i : Int) : Prop := (decimal i.natAbs).length ≤ maxDigits

instance (i : Int) : Decidable (IsShort i) := inferInstanceAs (Decidable (_ ≤ _))

theorem isDigit_of_mem_decimal {c : Char} (h : c ∈ decimal n) : c.isDigit = true :=
  Nat.isDigit_of_mem_toDigits (by decide) (by decide) h

theorem readDigits_decimal (ends : EndsNumeral r) :
    readDigits (decimal n ++ r) = (decimal n, r) := by
  have digits : ∀ c ∈ decimal n, c.isDigit = true := fun c => isDigit_of_mem_decimal
  unfold readDigits
  rw [List.takeWhile_append_of_pos digits, List.dropWhile_append_of_pos digits]
  cases r with
  | nil => simp
  | cons c r =>
    have other := (ends c rfl).1
    simp [other]

theorem readFraction_of_ends (ends : EndsNumeral r) : readFraction r = ([], r) := by
  unfold readFraction
  split
  · exact absurd rfl (ends '.' rfl).2.1
  · rfl

theorem readExponent_of_ends (ends : EndsNumeral r) : readExponent r = ([], r) := by
  cases r with
  | nil => rfl
  | cons c r =>
    have other : ¬ (c = 'e' ∨ c = 'E') := not_or.2 (ends c rfl).2.2
    exact if_neg other

theorem digitsValue_decimal (n : Nat) : digitsValue (decimal n) = n := by
  have same : digitsValue (decimal n) = Nat.ofDigitChars 10 (decimal n) 0 :=
    Nat.ofDigitChars_eq_foldl.symm
  rw [same]
  exact Nat.ofDigitChars_ten_toDigits

/-- Only zero is written with a zero in front. -/
theorem decimal_of_head_zero {ds : List Char} (h : decimal n = '0' :: ds) : ds = [] := by
  induction n using Nat.strongRecOn generalizing ds with
  | ind n ih =>
    by_cases one : n < 10
    · have digit : decimal n = [n.digitChar] := Nat.toDigits_of_lt_base one
      exact (List.cons.inj (digit.symm.trans h)).2.symm
    · have split : decimal n = decimal (n / 10) ++ [(n % 10).digitChar] :=
        Nat.toDigits_of_base_le (by decide) (Nat.not_lt.1 one)
      -- The first digit is that of the tens, and with no tens there is one digit only.
      cases tens : decimal (n / 10) with
      | nil => exact absurd tens Nat.toDigits_ne_nil
      | cons d front =>
        rw [split, tens, List.cons_append] at h
        obtain ⟨rfl, -⟩ := List.cons.inj h
        have zero := digitsValue_decimal (n / 10)
        rw [tens, ih (n / 10) (by omega) tens] at zero
        have none : n / 10 = 0 := zero.symm
        omega

theorem readNumber?_decimal (negative : Bool) (short : (decimal n).length ≤ maxDigits)
    (ends : EndsNumeral r) : readNumber? negative (decimal n ++ r) =
      some (.number (if negative then -n else n), r) := by
  have value := digitsValue_decimal n
  cases shape : decimal n with
  | nil => exact absurd shape Nat.toDigits_ne_nil
  | cons d ds =>
    -- A zero in front would end the numeral, but then it is all of it.
    have whole : (if d = '0' then (['0'], ds ++ r) else (d :: ds, r)) = (d :: ds, r) := by
      split
      · rename_i zero
        subst zero
        rw [decimal_of_head_zero shape]
        rfl
      · rfl
    rw [shape] at short value
    have digits : readDigits (d :: ds ++ r) = (d :: ds, r) := shape ▸ readDigits_decimal ends
    unfold readNumber?
    simp only [digits, whole, readFraction_of_ends ends, readExponent_of_ends ends,
      List.isEmpty_nil, Bool.and_self, if_true, if_neg (Nat.not_lt.2 short), value]

end Numbers

section Values

open Text

variable {l : Layout} {r : List Char}

theorem isSpace_iff {c : Char} :
    isSpace c = true ↔ c = ' ' ∨ c = '\t' ∨ c = '\n' ∨ c = '\r' := by
  simp [isSpace, or_assoc]

theorem skipSpace_append {blanks : List Char} (h : ∀ c ∈ blanks, isSpace c = true) (r : List Char) :
    skipSpace (blanks ++ r) = skipSpace r :=
  List.dropWhile_append_of_pos h

theorem skipSpace_cons {c : Char} (h : isSpace c = false) (r : List Char) :
    skipSpace (c :: r) = c :: r := by
  rw [skipSpace, List.dropWhile_cons_of_neg (by simp [h])]

/-- Behind its commas and colons the layout has blanks only. -/
structure Layout.Regular (l : Layout) : Prop where
  comma : ∃ blanks, l.comma = ',' :: blanks ∧ ∀ c ∈ blanks, isSpace c = true
  colon : ∃ blanks, l.colon = ':' :: blanks ∧ ∀ c ∈ blanks, isSpace c = true

theorem regular_spaced : spaced.Regular :=
  ⟨⟨[' '], rfl, List.forall_mem_singleton.2 rfl⟩, ⟨[' '], rfl, List.forall_mem_singleton.2 rfl⟩⟩

theorem regular_indented : indented.Regular :=
  ⟨⟨[], rfl, nofun⟩, ⟨[' '], rfl, List.forall_mem_singleton.2 rfl⟩⟩

theorem isSpace_of_mem_newline {level : Nat} {c : Char} (h : c ∈ l.newline level) :
    isSpace c = true := by
  unfold Layout.newline at h
  split at h
  · cases h
  · rcases List.mem_cons.1 h with rfl | h
    · rfl
    · rw [List.eq_of_mem_replicate h]
      rfl

theorem endsNumeral_cons {c : Char} (mark : c = ',' ∨ c = ']' ∨ c = '}') (r : List Char) :
    EndsNumeral (c :: r) := by
  intro d head
  cases head
  rcases mark with rfl | rfl | rfl <;> decide

theorem endsNumeral_of_blanks {blanks : List Char} (gap : ∀ c ∈ blanks, isSpace c = true)
    (ends : EndsNumeral r) : EndsNumeral (blanks ++ r) := by
  cases blanks with
  | nil => exact ends
  | cons b blanks =>
    intro d head
    cases head
    rcases isSpace_iff.1 (gap b List.mem_cons_self) with rfl | rfl | rfl | rfl <;> decide

/-- The value is read from its text, whatever stands behind it. Two steps for each character are more
than enough: one goes to the value and one to the list or record that it stands in. -/
def IsRead (l : Layout) (v : Value) : Prop :=
  ∀ fuel level r, 2 * (print l level v).length ≤ fuel + 1 → EndsNumeral r →
    readValue? (fuel + 1) (print l level v ++ r) = some (v, r)

theorem decimal_eq_cons (n : Nat) : ∃ d ds, decimal n = d :: ds ∧ d.isDigit = true := by
  cases shape : decimal n with
  | nil => exact absurd shape Nat.toDigits_ne_nil
  | cons d ds => exact ⟨d, ds, rfl, isDigit_of_mem_decimal (shape ▸ List.mem_cons_self)⟩

theorem exists_digitChar {d : Char} (digit : d.isDigit = true) : ∃ n < 10, n.digitChar = d := by
  have digits : ∀ n < 10, n.digitChar = Char.ofNat (n + 48) := by decide
  obtain ⟨low, high⟩ := Char.isDigit_iff_toNat.1 digit
  change 48 ≤ d.toNat at low
  change d.toNat ≤ 57 at high
  refine ⟨d.toNat - 48, by omega, ?_⟩
  rw [digits _ (by omega), Nat.sub_add_cancel low, Char.ofNat_toNat]

/-- No other value begins with a digit. -/
theorem readValue?_digit {d : Char} (digit : d.isDigit = true) (fuel : Nat) (t : List Char) :
    readValue? (fuel + 1) (d :: t) = readNumber? false (d :: t) := by
  -- With a character known by its name the clause that reads it is found by computation.
  obtain ⟨n, small, rfl⟩ := exists_digitChar digit
  interval_cases n <;> rfl

theorem readValue?_minus {d : Char} (digit : d.isDigit = true) (fuel : Nat) (t : List Char) :
    readValue? (fuel + 1) ('-' :: d :: t) = readNumber? true (d :: t) := by
  obtain ⟨n, small, rfl⟩ := exists_digitChar digit
  interval_cases n <;> rfl

theorem isRead_number {i : Int} (short : IsShort i) : IsRead l (.number i) := by
  intro fuel level r _ ends
  cases i with
  | ofNat n =>
    obtain ⟨d, ds, shape, digit⟩ := decimal_eq_cons n
    have read := readNumber?_decimal (n := n) false short ends
    rw [print, decimalInt]
    rw [shape] at read ⊢
    exact (readValue?_digit digit fuel (ds ++ r)).trans read
  | negSucc n =>
    obtain ⟨d, ds, shape, digit⟩ := decimal_eq_cons (n + 1)
    have read := readNumber?_decimal (n := n + 1) true short ends
    rw [print, decimalInt]
    rw [shape] at read ⊢
    exact (readValue?_minus digit fuel (ds ++ r)).trans read

theorem isRead_text (s : String) : IsRead l (.text s) := by
  intro fuel level r _ _
  obtain ⟨t, text, body⟩ := readString?_printString l.ascii s r
  rw [print, text, readValue?_quote, body, Option.map_some, String.ofList_toList]

theorem print_eq_cons {v : Value} (h : v.WellFormed) (level : Nat) :
    ∃ c t, print l level v = c :: t ∧ isSpace c = false ∧ c ≠ ']' := by
  cases h with
  | null => exact ⟨_, _, by rw [print], rfl, by decide⟩
  | flag b => cases b <;> exact ⟨_, _, by rw [print], rfl, by decide⟩
  | number i =>
    cases i with
    | ofNat n =>
      obtain ⟨d, ds, shape, digit⟩ := decimal_eq_cons n
      have visible : isSpace d = false ∧ d ≠ ']' := by
        constructor
        · cases space : isSpace d with
          | false => rfl
          | true =>
            rcases isSpace_iff.1 space with rfl | rfl | rfl | rfl <;> cases digit
        · rintro rfl
          cases digit
      exact ⟨d, ds, by rw [print, decimalInt, shape], visible⟩
    | negSucc n => exact ⟨_, _, by rw [print, decimalInt], rfl, by decide⟩
  | text s => exact ⟨_, _, by rw [print, printString], rfl, by decide⟩
  | @list items _ => cases items <;> exact ⟨_, _, by rw [print], rfl, by decide⟩
  | @record fields _ _ =>
    rcases fields with _ | ⟨⟨k, v⟩, fs⟩ <;> exact ⟨_, _, by rw [print], rfl, by decide⟩

theorem skipSpace_print {v : Value} (h : v.WellFormed) (level : Nat) (r : List Char) :
    skipSpace (print l level v ++ r) = print l level v ++ r := by
  obtain ⟨c, t, shape, visible, -⟩ := print_eq_cons (l := l) h level
  rw [shape, List.cons_append, skipSpace_cons visible]

theorem length_print_pos {v : Value} (h : v.WellFormed) (level : Nat) :
    0 < (print l level v).length := by
  obtain ⟨c, t, shape, -⟩ := print_eq_cons (l := l) h level
  rw [shape, List.length_cons]
  exact Nat.succ_pos _

variable {level fuel : Nat} {blanks tail : List Char} {v : Value}

theorem IsRead.last_item (read : IsRead l v) (enough : 2 * (print l level v).length ≤ fuel + 1)
    (ends : EndsNumeral tail) (last : skipSpace tail = ']' :: r) :
    readItems? (fuel + 2) (print l level v ++ tail) = some ([v], r) :=
  readItems?_last (read fuel level tail enough ends) last

theorem IsRead.item (read : IsRead l v) (enough : 2 * (print l level v).length ≤ fuel + 1) :
    readItems? (fuel + 2) (print l level v ++ ',' :: tail) =
      (readItems? (fuel + 1) (skipSpace tail)).map fun p => (v :: p.1, p.2) := by
  have first := read fuel level (',' :: tail) enough (endsNumeral_cons (.inl rfl) tail)
  exact readItems?_comma first (skipSpace_cons rfl _)

/-- A field of a record and what stands behind it. -/
def entry (l : Layout) (level : Nat) (f : String × Value) (tail : List Char) : List Char :=
  printString l.ascii f.1 ++ (l.colon ++ (print l level f.2 ++ tail))

theorem read_entry (regular : l.Regular) {f : String × Value} (whole : f.2.WellFormed)
    (level : Nat) (tail : List Char) : ∃ s t, entry l level f tail = '"' :: s ∧
      readString? s.length s = some (f.1.toList, ':' :: t) ∧
      skipSpace t = print l level f.2 ++ tail := by
  obtain ⟨apart, colon, calm⟩ := regular.colon
  obtain ⟨s, text, key⟩ := readString?_printString l.ascii f.1
    (l.colon ++ (print l level f.2 ++ tail))
  rw [colon, List.cons_append] at key
  exact ⟨s, _, text, key, by rw [skipSpace_append calm, skipSpace_print whole]⟩

theorem IsRead.last_field (regular : l.Regular) {f : String × Value} (whole : f.2.WellFormed)
    (read : IsRead l f.2) (enough : 2 * (print l level f.2).length ≤ fuel + 1)
    (ends : EndsNumeral tail) (last : skipSpace tail = '}' :: r) :
    readFields? (fuel + 2) (entry l level f tail) = some ([f], r) := by
  obtain ⟨s, t, text, key, value⟩ := read_entry regular whole level tail
  rw [text, readFields?_last key (skipSpace_cons rfl _)
    (by rw [value, read fuel level tail enough ends]) last, String.ofList_toList]

theorem IsRead.field (regular : l.Regular) {f : String × Value} (whole : f.2.WellFormed)
    (read : IsRead l f.2) (enough : 2 * (print l level f.2).length ≤ fuel + 1) :
    readFields? (fuel + 2) (entry l level f (',' :: tail)) =
      (readFields? (fuel + 1) (skipSpace tail)).map fun p => (f :: p.1, p.2) := by
  obtain ⟨s, t, text, key, value⟩ := read_entry regular whole level (',' :: tail)
  have first := read fuel level (',' :: tail) enough (endsNumeral_cons (.inl rfl) tail)
  rw [text, readFields?_comma key (skipSpace_cons rfl _) (by rw [value, first])
    (skipSpace_cons rfl _), String.ofList_toList]

/-- Items are read one after another, up to the bracket that closes them. -/
theorem readItems?_print (regular : l.Regular) {vs : List Value}
    (each : ∀ w ∈ v :: vs, w.WellFormed ∧ IsRead l w) (gap : ∀ c ∈ blanks, isSpace c = true)
    (enough : 2 * ((print l level v).length + (printItems l level vs).length) ≤ fuel + 1) :
    readItems? (fuel + 2) (print l level v ++ (printItems l level vs ++ (blanks ++ ']' :: r))) =
      some (v :: vs, r) := by
  induction vs generalizing v fuel with
  | nil =>
    have ends := endsNumeral_of_blanks gap (endsNumeral_cons (.inr (.inl rfl)) r)
    have last : skipSpace (blanks ++ ']' :: r) = ']' :: r := by
      rw [skipSpace_append gap, skipSpace_cons rfl]
    rw [printItems, List.nil_append]
    exact (each v List.mem_cons_self).2.last_item (by omega) ends last
  | cons w vs ih =>
    obtain ⟨⟨whole, read⟩, others⟩ := List.forall_mem_cons.1 each
    obtain ⟨space, comma, calm⟩ := regular.comma
    have here := length_print_pos (l := l) whole level
    simp only [printItems, comma, List.length_append, List.length_cons] at enough
    obtain ⟨fuel, rfl⟩ : ∃ f, fuel = f + 1 := ⟨fuel - 1, by omega⟩
    have parts : printItems l level (w :: vs) ++ (blanks ++ ']' :: r) =
        ',' :: (space ++ (l.newline level ++
          (print l level w ++ (printItems l level vs ++ (blanks ++ ']' :: r))))) := by
      simp [printItems, comma]
    rw [parts, read.item (by omega), skipSpace_append calm,
      skipSpace_append fun c => isSpace_of_mem_newline,
      skipSpace_print (others w List.mem_cons_self).1, ih others (by omega)]
    rfl

/-- Fields are read one after another, up to the brace that closes them. -/
theorem readFields?_print (regular : l.Regular) {f : String × Value} {fs : List (String × Value)}
    (each : ∀ g ∈ f :: fs, g.2.WellFormed ∧ IsRead l g.2) (gap : ∀ c ∈ blanks, isSpace c = true)
    (enough : 2 * ((print l level f.2).length + (printFields l level fs).length) ≤ fuel + 1) :
    readFields? (fuel + 2) (entry l level f (printFields l level fs ++ (blanks ++ '}' :: r))) =
      some (f :: fs, r) := by
  induction fs generalizing f fuel with
  | nil =>
    obtain ⟨whole, read⟩ := each f List.mem_cons_self
    have ends := endsNumeral_of_blanks gap (endsNumeral_cons (.inr (.inr rfl)) r)
    have last : skipSpace (blanks ++ '}' :: r) = '}' :: r := by
      rw [skipSpace_append gap, skipSpace_cons rfl]
    rw [printFields, List.nil_append]
    exact read.last_field regular whole (by omega) ends last
  | cons g fs ih =>
    obtain ⟨⟨whole, read⟩, others⟩ := List.forall_mem_cons.1 each
    obtain ⟨space, comma, calm⟩ := regular.comma
    have here := length_print_pos (l := l) whole level
    simp only [printFields, comma, List.length_append, List.length_cons] at enough
    obtain ⟨fuel, rfl⟩ : ∃ f, fuel = f + 1 := ⟨fuel - 1, by omega⟩
    have parts : printFields l level (g :: fs) ++ (blanks ++ '}' :: r) =
        ',' :: (space ++ (l.newline level ++
          entry l level g (printFields l level fs ++ (blanks ++ '}' :: r)))) := by
      simp [printFields, comma, entry]
    have quote (t : List Char) : skipSpace (entry l level g t) = entry l level g t :=
      skipSpace_cons rfl _
    rw [parts, read.field regular whole (by omega), skipSpace_append calm,
      skipSpace_append fun c => isSpace_of_mem_newline, quote, ih others (by omega)]
    rfl

theorem isRead_list (regular : l.Regular) {items : List Value}
    (each : ∀ w ∈ items, w.WellFormed ∧ IsRead l w) : IsRead l (.list items) := by
  intro fuel level r enough _
  cases items with
  | nil =>
    rw [print]
    rfl
  | cons v vs =>
    have text : print l level (.list (v :: vs)) ++ r =
        '[' :: (l.newline (level + 1) ++ (print l (level + 1) v ++
          (printItems l (level + 1) vs ++ (l.newline level ++ ']' :: r)))) := by
      simp [print]
    have whole := (each v List.mem_cons_self).1
    obtain ⟨c, t, shape, -, other⟩ := print_eq_cons (l := l) whole (level + 1)
    have first : (print l (level + 1) v ++ (printItems l (level + 1) vs ++
        (l.newline level ++ ']' :: r))).head? ≠ some ']' := by
      rw [shape]
      exact fun same => other (Option.some.inj same)
    have gap : ∀ c ∈ l.newline (level + 1), isSpace c = true := fun c => isSpace_of_mem_newline
    have start := skipSpace_append gap (print l (level + 1) v ++
      (printItems l (level + 1) vs ++ (l.newline level ++ ']' :: r)))
    rw [skipSpace_print whole] at start
    simp only [print, List.length_append, List.length_cons] at enough
    obtain ⟨fuel, rfl⟩ : ∃ f, fuel = f + 2 := ⟨fuel - 2, by omega⟩
    rw [text, readValue?_bracket start first,
      readItems?_print regular each (fun c => isSpace_of_mem_newline) (by omega)]
    rfl

theorem isRead_record (regular : l.Regular) {fields : List (String × Value)}
    (distinct : (Entries.keys fields).Nodup)
    (each : ∀ f ∈ fields, f.2.WellFormed ∧ IsRead l f.2) : IsRead l (.record fields) := by
  intro fuel level r enough _
  cases fields with
  | nil =>
    rw [print]
    rfl
  | cons f fs =>
    have text : print l level (.record (f :: fs)) ++ r =
        '{' :: (l.newline (level + 1) ++ entry l (level + 1) f
          (printFields l (level + 1) fs ++ (l.newline level ++ '}' :: r))) := by
      simp [print, entry]
    have first (t : List Char) : (entry l (level + 1) f t).head? ≠ some '}' := by
      simp [entry, printString]
    have start (t : List Char) : skipSpace (l.newline (level + 1) ++ entry l (level + 1) f t) =
        entry l (level + 1) f t := by
      rw [skipSpace_append fun c => isSpace_of_mem_newline]
      exact skipSpace_cons rfl _
    simp only [print, List.length_append, List.length_cons] at enough
    obtain ⟨fuel, rfl⟩ : ∃ f, fuel = f + 2 := ⟨fuel - 2, by omega⟩
    rw [text, readValue?_brace (start _) (first _),
      readFields?_print regular each (fun c => isSpace_of_mem_newline) (by omega)]
    simp only [Option.map_some, Entries.ofList_eq_self distinct]

theorem isRead_of_wellFormed (regular : l.Regular) (h : v.WellFormed)
    (short : ∀ i ∈ v.numbers, IsShort i) : IsRead l v := by
  induction h with
  | null =>
    intro fuel level r _ _
    rw [print]
    rfl
  | flag b =>
    intro fuel level r _ _
    cases b <;> rw [print] <;> rfl
  | number i => exact isRead_number (short i List.mem_cons_self)
  | text s => exact isRead_text s
  | @list items each ih =>
    rw [Value.numbers, Value.numbersOfItems_eq] at short
    exact isRead_list regular fun w hw =>
      ⟨each w hw, ih w hw fun i hi => short i (List.mem_flatMap.2 ⟨w, hw, hi⟩)⟩
  | @record fields distinct each ih =>
    rw [Value.numbers, Value.numbersOfFields_eq] at short
    exact isRead_record regular distinct fun f hf =>
      ⟨each f hf, ih f hf fun i hi => short i (List.mem_flatMap.2 ⟨f, hf, hi⟩)⟩

/-- A well-formed value without a long numeral is read from its text, on a line or on many. -/
theorem read?_print (regular : l.Regular) (h : v.WellFormed)
    (short : ∀ i ∈ v.numbers, IsShort i) : read? (print l 0 v ++ ['\n']) = some v := by
  have value := isRead_of_wellFormed regular h short (2 * (print l 0 v ++ ['\n']).length) 0 ['\n']
    (by simp only [List.length_append]; omega) (by intro c head; cases head; decide)
  rw [read?, skipSpace_print h, value]
  rfl

/-- Reading undoes printing, in both layouts of exports, for all values whose numbers are taken. -/
def Undoes (loads : String → Option Value) (takes : Int → Prop) : Prop :=
  ∀ l ∈ [spaced, indented], ∀ v : Value, v.WellFormed → (∀ i ∈ v.numbers, takes i) →
    loads (render l v ++ "\n") = some v

theorem undoes_read : Undoes (fun s => read? s.toList) IsShort := by
  intro l hl v whole short
  have regular : l.Regular := by
    rcases List.mem_pair.1 hl with rfl | rfl
    · exact regular_spaced
    · exact regular_indented
  have text : (render l v ++ "\n").toList = print l 0 v ++ ['\n'] := by
    simp [render]
  change read? (render l v ++ "\n").toList = some v
  rw [text]
  exact read?_print regular whole short

end Values

end HostPlan.Json
