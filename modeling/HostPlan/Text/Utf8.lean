import HostPlan.Text.Range
/-!
Text in UTF-8. Bytes are read one at a time by a machine that knows how many bytes of a character
are still to come and in which range the next one lies, so that overlong forms and surrogates have
no spelling. Bytes that belong to no character are told apart from all characters; a run of them
counts once for every longest start of a character in it.
-/
namespace HostPlan.Text.Utf8

inductive State where
  | start
  /-- Inside a character: the bytes to come, the range of the next one, the bits so far. -/
  | inside (left : Nat) (next : Range) (bits : Nat)
deriving DecidableEq, Repr

/-- A byte that begins a character; `none` marks one that begins nothing. -/
def lead (b : Nat) : State × List (Option Char) :=
  if b < 0x80 then (.start, [some (Char.ofNat b)])
  else if b < 0xC2 then (.start, [none])
  else if b < 0xE0 then (.inside 1 (0x80, 0xBF) (b - 0xC0), [])
  else if b < 0xF0 then
    let low := if b = 0xE0 then 0xA0 else 0x80
    let high := if b = 0xED then 0x9F else 0xBF
    (.inside 2 (low, high) (b - 0xE0), [])
  else if b < 0xF5 then
    let low := if b = 0xF0 then 0x90 else 0x80
    let high := if b = 0xF4 then 0x8F else 0xBF
    (.inside 3 (low, high) (b - 0xF0), [])
  else (.start, [none])

def State.step : State → Nat → State × List (Option Char)
  | .start, b => lead b
  | .inside left next bits, b =>
    if next.1 ≤ b ∧ b ≤ next.2 then
      let bits := 64 * bits + (b - 0x80)
      if left ≤ 1 then (.start, [some (Char.ofNat bits)])
      else (.inside (left - 1) (0x80, 0xBF) bits, [])
    else ((lead b).1, none :: (lead b).2)

/-- What is owed when the bytes end. -/
def State.finish : State → List (Option Char)
  | .start => []
  | .inside _ _ _ => [none]

def State.run (s : State) : List UInt8 → List (Option Char)
  | [] => s.finish
  | b :: r => (s.step b.toNat).2 ++ (s.step b.toNat).1.run r

/-- The text of some bytes, if all of them belong to characters. -/
def decode? (bytes : List UInt8) : Option (List Char) := (State.start.run bytes).mapM id

/-- The text of some bytes, with a replacement character for what belongs to none. -/
def decodeLossy (bytes : List UInt8) : List Char :=
  (State.start.run bytes).map (·.getD '\uFFFD')

end HostPlan.Text.Utf8
