import HostPlan.Data.Display
/-!
What comes of reading a file: its bytes, or the reason why there are none.
-/
namespace HostPlan.File

inductive Fault where
  | missing
  | directory
  | other (reason : String)
deriving DecidableEq, Repr

abbrev Contents := Except Fault (List UInt8)

def Fault.reason (path : String) : Fault → String
  | .missing =>
    "[Errno 2] No such file or directory: " ++ String.ofList (Value.quotedText path.toList)
  | .directory => "[Errno 21] Is a directory: " ++ String.ofList (Value.quotedText path.toList)
  | .other reason => reason

end HostPlan.File
