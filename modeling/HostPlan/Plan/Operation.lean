import HostPlan.Data.Prune
import HostPlan.Model.Basic
import HostPlan.Plan.Target
/-!
An operation: one call of the platform that creates one thing.
-/
namespace HostPlan

structure Operation where
  endpoint : String
  payload : Payload
  displayName : String
  category : Category
  method : String := "POST"
  /-- A remark for the reader of the plan. -/
  note : Option String := none
  environment : Entries String String := []
deriving DecidableEq, Repr

def Payload.toValue (p : Payload) : Value := .record (p.map fun f => (f.1, .ofScalar f.2))

namespace Operation

def environmentValue (e : Entries String String) : Value :=
  .record (e.map fun f => (f.1, .text f.2))

def toValue (o : Operation) : Value :=
  .record [("endpoint", .text o.endpoint), ("payload", Payload.toValue o.payload),
    ("display_name", .text o.displayName), ("category", .text o.category.name),
    ("method", .text o.method), ("annotation", .ofOption .text o.note),
    ("environment", environmentValue o.environment)]

end Operation
end HostPlan
