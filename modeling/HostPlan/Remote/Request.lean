import HostPlan.Log
import HostPlan.Remote.Response
import HostPlan.Remote.Url
/-!
Requests: what is sent to the platform, and what is noted about it.
-/
namespace HostPlan.Remote

structure Request where
  verb : String
  url : String
  body : Option Value
  token : String
deriving Repr

/-- The address and the key of a platform. -/
structure Access where
  address : String
  token : String
deriving DecidableEq, Repr

namespace Access

def request (a : Access) (c : Call) : Request where
  verb := c.verb
  url := requestUrl a.address c.path
  body := c.body?
  token := a.token

def probe (a : Access) : Request where
  verb := "GET"
  url := requestUrl a.address "/version"
  body := none
  token := a.token

end Access

def Request.headers (r : Request) : List (String × String) :=
  [("Authorization", "Bearer " ++ r.token), ("Accept", "application/json"),
    ("Content-Type", "application/json")]

def notes (c : Call) : Outcome → List Note
  | .broken _ message =>
    [⟨.warning, "client", c.verb ++ " " ++ c.path ++ " failed: " ++ message⟩]
  | .response status charset body =>
    if isError status then
      [⟨.debug, "client", c.verb ++ " " ++ c.path ++ " -> " ++
        String.ofList (Text.decimal status) ++ ": " ++ (errorOf status charset body).display⟩]
    else []

end HostPlan.Remote
