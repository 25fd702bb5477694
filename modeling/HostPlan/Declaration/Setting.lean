import HostPlan.Declaration.Port
import HostPlan.Model.Basic
import HostPlan.Source.Argument
import HostPlan.Source.Call
/-!
What a single method call says about the resource it configures: an image, a port, a variable, an
endpoint, a volume or a reference.
-/
namespace HostPlan.Declaration

open Source Text

def textArgument? (args : List String) (i : Nat) : Option String :=
  args[i]?.bind fun a => (argumentText? a.toList).map String.ofList

/-- The value of a named argument, unless it is empty. -/
def namedArgument? (args : List String) (name : String) : Option (List Char) :=
  match Entries.get? name.toList (namedArguments (args.map String.toList)) with
  | some [] => none
  | v => v

end HostPlan.Declaration

namespace HostPlan.Source.MethodCall

open Declaration Text

def literal? (c : MethodCall) : Option String :=
  (firstLiteral? c.rawArgs.toList).map String.ofList

def firstText? (c : MethodCall) : Option String := textArgument? c.args 0

def named? (c : MethodCall) (name : String) : Option String :=
  (namedArgument? c.args name).map String.ofList

def firstPort (c : MethodCall) : Reading (Option Int) :=
  match c.args with
  | a :: _ => port a.toList
  | [] => .ok none

/-- The variable of a call with a key and a value. Any literal in the value makes it a literal. -/
def environmentVariable? (c : MethodCall) : Option Variable :=
  match c.args with
  | key :: value :: _ =>
    let key := String.ofList ((argumentText? key.toList).getD [])
    match firstLiteral? value.toList with
    | some text => some ⟨key, String.ofList text, false⟩
    | none => some ⟨key, trimmed value, true⟩
  | _ => none

/-- The port of an endpoint: a named one, or else a first argument that has no name. -/
def endpointPort (c : MethodCall) : Reading (Option Int) := do
  let first ←
    match c.args with
    | a :: _ => if a.toList.contains ':' then .ok none else port a.toList
    | [] => .ok none
  match namedArgument? c.args "port" with
  | some p => port p
  | none => .ok first

def endpoint (protocol : String) (c : MethodCall) : Reading Endpoint := do
  let first ← c.endpointPort
  let target ←
    match namedArgument? c.args "targetPort" with
    | some p => port p
    | none => .ok none
  pure {
    protocol
    isExternal := namedArgument? c.args "isExternal" == some "true".toList
    name := c.named? "name"
    port := first
    targetPort := target
    envVariable := c.named? "env" }

/-- A binding to a port, which the first argument has to give. -/
def binding? (c : MethodCall) : Reading (Option Endpoint) := do
  match ← c.firstPort with
  | some p => pure (some { port := some p })
  | none => pure none

/-- What a call refers to: the name before the first point. -/
def target? (c : MethodCall) : Option String :=
  match c.args with
  | a :: _ =>
    match (unquoted a.toList).takeWhile (· != '.') with
    | [] => none
    | name => some (String.ofList name)
  | [] => none

def dataVolume (c : MethodCall) : Volume := { isData := true, mountPath := c.literal? }

def bindMount? (c : MethodCall) : Option Volume :=
  match c.args with
  | _ :: _ :: _ =>
    some { name := textArgument? c.args 0, mountPath := textArgument? c.args 1 }
  | _ => none

end HostPlan.Source.MethodCall
