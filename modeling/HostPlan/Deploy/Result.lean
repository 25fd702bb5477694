import HostPlan.Data.Display
import HostPlan.Model.Basic
/-!
What became of the resources of a model.
-/
namespace HostPlan.Deploy

structure Result where
  category : String
  name : String
  success : Bool
  skipped : Bool := false
  identifier : Value := .null
  error : Value := .null
deriving Repr, Inhabited

namespace Result

def toValue (r : Result) : Value :=
  .record [("success", .flag r.success), ("category", .text r.category), ("name", .text r.name),
    ("identifier", r.identifier), ("error", r.error), ("skipped", .flag r.skipped)]

def created (r : Resource) (identifier : Value) : Result where
  category := r.category.name
  name := r.name
  success := true
  identifier

def existing (r : Resource) (identifier : Value) : Result where
  category := r.category.name
  name := r.name
  success := true
  skipped := true
  identifier

def failed (r : Resource) (error : Value) : Result where
  category := r.category.name
  name := r.name
  success := false
  error

end Result

/-- The results of a run, in the order of the resources, and its warnings. -/
structure Summary where
  results : List Result := []
  warnings : List String := []
deriving Repr, Inhabited

namespace Summary

def successful (s : Summary) : Nat := s.results.countP fun r => r.success && !r.skipped
def failed (s : Summary) : Nat := s.results.countP fun r => !r.success
def skipped (s : Summary) : Nat := s.results.countP fun r => r.skipped

end Summary
end HostPlan.Deploy
