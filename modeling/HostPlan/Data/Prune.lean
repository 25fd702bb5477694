import HostPlan.Data.Value
/-!
Values without the fields that hold null, at every level. Items of a list stay, null or not.
-/
namespace HostPlan.Value

mutual

def prune : Value → Value
  | .list items => .list (pruneItems items)
  | .record fields => .record (pruneFields fields)
  | v => v

def pruneItems : List Value → List Value
  | [] => []
  | v :: vs => prune v :: pruneItems vs

def pruneFields : List (String × Value) → List (String × Value)
  | [] => []
  | (k, v) :: fs => if v.isNull then pruneFields fs else (k, prune v) :: pruneFields fs

end

end HostPlan.Value
