import HostPlan.Data.Scalar
import HostPlan.Text.Blank
/-!
The address and the key of the platform. What is given on the command line goes before a variable of
the environment, this before the configuration, and only where all are silent the user is asked.
-/
namespace HostPlan

inductive Credential where
  | address
  | token
deriving DecidableEq, Repr

namespace Credential

def environmentName : Credential → String
  | .address => "COOLIFY_API_URL"
  | .token => "COOLIFY_TOKEN"

def prompt : Credential → String
  | .address => "Enter your Coolify API URL (e.g., https://coolify.example.com)"
  | .token => "Enter your Coolify API token"

/-- What is said when it is not given at all. -/
def missing : Credential → String
  | .address =>
    "Missing Coolify API URL. Provide via --api-url flag, COOLIFY_API_URL env var, or config file."
  | .token =>
    "Missing Coolify API token. Provide via --token flag, COOLIFY_TOKEN env var, or config file."

/-- What is written down somewhere; the first place that says something counts. -/
def written (flag environment configured : Scalar) : Scalar :=
  flag.orElse (environment.orElse configured)

/-- What a user has typed, without the blanks around it. -/
def typed (answer : String) : Scalar := .text (String.ofList (Text.trim answer.toList))

/-- The credential, if it is written down or typed. -/
def chosen (written : Scalar) (answer : Option String) : Scalar :=
  if written.isFilled then written
  else
    match answer with
    | some s => if (typed s).isFilled then typed s else .null
    | none => .null

def problems (address token : Scalar) : List String :=
  (if address.isFilled then [] else [missing .address]) ++
    if token.isFilled then [] else [missing .token]

end Credential
end HostPlan
