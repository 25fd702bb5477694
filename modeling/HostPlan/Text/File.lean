import HostPlan.Text.Utf8
/-!
The text of a file: UTF-8 without its byte order mark, and with one kind of line break.
-/
namespace HostPlan.Text

def withoutMark : List Char → List Char
  | '\uFEFF' :: r => r
  | s => s

/-- Every kind of line break as a line feed; the flag says that a carriage return came before. -/
def lineFeeds (afterReturn : Bool) : List Char → List Char
  | [] => []
  | c :: r =>
    if c = '\r' then '\n' :: lineFeeds true r
    else if c = '\n' ∧ afterReturn then lineFeeds false r
    else c :: lineFeeds false r

def fileText? (bytes : List UInt8) : Option (List Char) :=
  (Utf8.decode? bytes).map fun s => lineFeeds false (withoutMark s)

end HostPlan.Text
