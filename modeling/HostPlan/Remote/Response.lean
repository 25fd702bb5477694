import HostPlan.Remote.Body
import HostPlan.Remote.Call
import HostPlan.Remote.Status
import HostPlan.Text.Blank
/-!
From what a request comes to, to how the call ended.
-/
namespace HostPlan.Remote

/-- What a request comes to: a response, or no response at all. -/
inductive Outcome where
  | response (status : Nat) (charset : Charset) (body : List UInt8)
  | broken (kind message : String)
deriving Repr

/-- What is said about a request without a response. -/
def brokenText (kind message : String) : String := if message = "" then kind else message

/-- The reason that an error response gives: what its JSON says under one of two keys, or else its
text, or else its status. -/
def errorOf (status : Nat) (charset : Charset) (body : List UInt8) : Value :=
  let text := charset.decode body
  match Json.read? text with
  | some v =>
    if (v.field "message").isFilled then v.field "message"
    else if (v.field "error").isFilled then v.field "error"
    else .text (String.ofList text)
  | none =>
    if text.isEmpty then
      .text ("HTTP " ++ String.ofList (Text.decimal status) ++ ": " ++ phrase status)
    else .text (String.ofList text)

namespace Outcome

def answer (path : String) : Outcome → Answer
  | .broken kind message => .failure (.text (brokenText kind message))
  | .response status charset body =>
    if isError status then .failure (errorOf status charset body)
    else if body.isEmpty then .success (.record [])
    else
      match json? body with
      | some v => .success v
      | none => .failure (.text ("Invalid JSON response from " ++ path))

/-- The version that a body tells, whatever its form. -/
def version (charset : Charset) (body : List UInt8) : Value :=
  match json? body with
  | some (.record fields) => .record fields
  | some v => .record [("version", .text v.display)]
  | none => .record [("version", .text (String.ofList (Text.trim (charset.decode body))))]

/-- The answer to the question for the version, which tests the connection. -/
def connection : Outcome → Answer
  | .broken kind message => .failure (.text (brokenText kind message))
  | .response status charset body =>
    if isError status then .failure (errorOf status charset body)
    else .success (version charset body)

end Outcome
end HostPlan.Remote
