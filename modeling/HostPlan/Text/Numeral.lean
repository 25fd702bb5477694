/-!
Whole numbers in decimal.
-/
namespace HostPlan.Text

def decimal (n : Nat) : List Char := Nat.toDigits 10 n

def decimalInt : Int → List Char
  | .ofNat n => decimal n
  | .negSucc n => '-' :: decimal (n + 1)

end HostPlan.Text
