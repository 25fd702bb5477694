import HostPlan.Source.Bracket
import HostPlan.Text.Word
/-!
Method calls in a row, `.Name<T>(arguments)`. Reading stops at the first thing that is no call; a
call whose parenthesis never closes is told apart from that, because it means broken text.
-/
namespace HostPlan.Source

open Text

/-- One call of a fluent chain: its arguments one by one, and their whole text, trimmed. -/
structure MethodCall where
  method : String
  args : List String := []
  rawArgs : String := ""
deriving DecidableEq, Repr, Inhabited

/-- The call of a method with the text between its parentheses. -/
def MethodCall.ofText (method inner : List Char) : MethodCall where
  method := String.ofList method
  args := (arguments inner).map String.ofList
  rawArgs := String.ofList (trim inner)

/-- What stands at the start of a text where a call may stand. -/
inductive CallStep where
  | none
  | unclosed
  | call (c : MethodCall) (rest : List Char)

def nextCall (s : List Char) : CallStep :=
  match trimStart s with
  | '.' :: r =>
    let r := trimStart r
    if (leadingWord r).isEmpty then .none
    else
      match skipTypeArguments (trimStart (afterWord r)) with
      | some ('(' :: t) =>
        match untilClosed .code 1 t with
        | some (inner, rest) => .call (.ofText (leadingWord r) inner) rest
        | none => .unclosed
      | _ => .none
  | _ => .none

theorem length_lt_of_nextCall {s rest : List Char} {c : MethodCall}
    (h : nextCall s = .call c rest) : rest.length < s.length := by
  unfold nextCall at h
  split at h
  · rename_i r hs
    have hle := trimStart_length_le s
    rw [hs] at hle
    simp only at h
    split at h
    · cases h
    · split at h
      · rename_i t ht
        split at h
        · rename_i inner rest' hc
          simp only [CallStep.call.injEq] at h
          have h₁ := length_lt_of_untilClosed hc
          have h₂ := skipTypeArguments_length_le ht
          have h₃ := trimStart_length_le (afterWord (trimStart r))
          have h₄ := afterWord_length_le (trimStart r)
          have h₅ := trimStart_length_le r
          simp only [List.length_cons] at hle h₂
          rw [← h.2]
          omega
        · cases h
      · cases h
  · cases h

/-- The calls at the start of a text, what follows them, and whether the reading ended for another
reason than an unclosed call. -/
structure CallRun where
  calls : List MethodCall
  rest : List Char
  closed : Bool

def readCalls (s : List Char) : CallRun :=
  match _h : nextCall s with
  | .none => ⟨[], s, true⟩
  | .unclosed => ⟨[], s, false⟩
  | .call c rest =>
    let run := readCalls rest
    { run with calls := c :: run.calls }
termination_by s.length
decreasing_by exact length_lt_of_nextCall _h

end HostPlan.Source
