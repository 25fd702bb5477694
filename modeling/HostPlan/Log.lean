/-!
Notes about a run, for a reader who wants to know what happened. A note says which part of the
program wrote it.
-/
namespace HostPlan

inductive Level where
  | debug
  | info
  | warning
  | error
deriving DecidableEq, Repr

def Level.name : Level → String
  | .debug => "DEBUG"
  | .info => "INFO"
  | .warning => "WARNING"
  | .error => "ERROR"

structure Note where
  level : Level
  part : String
  text : String
deriving DecidableEq, Repr

namespace Note

/-- Notes of the lowest level are for those who ask for them. -/
def isShown (verbose : Bool) (n : Note) : Bool := verbose || n.level != .debug

def line (n : Note) : String := n.level.name ++ " aspire2coolify." ++ n.part ++ ": " ++ n.text

end Note
end HostPlan
