import HostPlan.Text.Blank
import HostPlan.Text.DecimalDigit
import HostPlan.Text.Numeral
/-!
Ports. The number at the start of a text is its port, whatever follows; zero is no port, and a
numeral of excessive length is refused.
-/
namespace HostPlan.Declaration

open Text

/-- A numeral with more digits than are read. -/
structure OversizedNumeral where
  digits : Nat
deriving DecidableEq, Repr

/-- The longest numeral that is read. -/
def maxDigits : Nat := 4300

def OversizedNumeral.message (e : OversizedNumeral) : String :=
  "Exceeds the limit (" ++ String.ofList (decimal maxDigits) ++
    " digits) for integer string conversion: value has " ++ String.ofList (decimal e.digits) ++
    " digits; use sys.set_int_max_str_digits() to increase the limit"

/-- What is read from a call, unless a numeral in it is too long. -/
abbrev Reading (α : Type) := Except OversizedNumeral α

def port (s : List Char) : Reading (Option Int) :=
  let digits := (trimStart s).takeWhile isDecimalDigit
  if maxDigits < digits.length then .error ⟨digits.length⟩
  else
    match decimalValue digits with
    | 0 => .ok none
    | n => .ok (some (n : Int))

theorem port_eq_error_iff (s : List Char) (e : OversizedNumeral) :
    port s = .error e ↔ maxDigits < e.digits ∧
      ((trimStart s).takeWhile isDecimalDigit).length = e.digits := by
  unfold port
  simp only
  constructor
  · intro h
    split at h
    · rename_i long
      cases h
      exact ⟨long, rfl⟩
    · split at h <;> cases h
  · intro h
    rw [if_pos (h.2 ▸ h.1), h.2]

end HostPlan.Declaration
