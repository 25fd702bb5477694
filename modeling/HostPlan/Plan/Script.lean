import HostPlan.Data.Json.Printer
import HostPlan.Plan.Operation
import HostPlan.Plan.Shell
/-!
A plan as a script for the shell. The script does not run before all variables that it uses are set.
Every operation sends its payload as a here document; the operation that creates the project also
keeps the identifier it is answered.
-/
namespace HostPlan.Script

open Text

/-- The variables without which no call can be made. -/
def credentials : List String := ["COOLIFY_API_URL", "COOLIFY_TOKEN"]

def payloads (os : List Operation) : Value :=
  .list (os.map fun o => Payload.toValue o.payload)

def createsProject (os : List Operation) : Bool := os.any fun o => o.category == .project

/-- The placeholders that have to be set before the script runs. -/
def usedPlaceholders (os : List Operation) : List Placeholder :=
  let text := Json.print Json.spaced 0 (payloads os)
  Placeholder.all.filter fun p =>
    holds p.text.toList text && !(p == .project && createsProject os)

def required (os : List Operation) : List String :=
  credentials ++ (usedPlaceholders os).map Placeholder.name

/-- The lines of the here document that holds a payload. -/
def body (o : Operation) : List String :=
  let text := Json.print Json.indented 0 (Payload.toValue o.payload)
  (cutAt '\n' (Shell.escaped text)).map String.ofList

def guard (os : List Operation) : List String :=
  ["#!/bin/bash",
   "# Coolify deployment script generated by aspire2coolify",
   "set -e",
   "",
   "required=(" ++ joined " " (required os) ++ ")",
   "for var in \"$\x7brequired[@]\x7d\"; do",
   "  if [ -z \"$\x7b!var\x7d\" ]; then",
   "    echo \"Error: $var is not set\" >&2",
   "    exit 1",
   "  fi",
   "done",
   ""]

def announce (s : String) : String := "echo " ++ String.ofList (Shell.quoted s.toList)

def call (flags : String) (o : Operation) : String :=
  "curl " ++ flags ++ " " ++ o.method ++ " \"$\x7bCOOLIFY_API_URL\x7d/api/v1" ++ o.endpoint ++
    "\" \\"

def headers : List String :=
  ["  -H \"Authorization: Bearer $\x7bCOOLIFY_TOKEN\x7d\" \\",
   "  -H \"Content-Type: application/json\" \\"]

def keepUuid : String := "sed -n 's/.*\"uuid\" *: *\"\\([^\"]*\\)\".*/\\1/p'"

def projectBlock (o : Operation) : List String :=
  [announce ("Creating project: " ++ o.displayName),
   "PROJECT_UUID=$(" ++ call "-s -X" o] ++ headers ++
  ["  -d @- <<EOF | " ++ keepUuid] ++ body o ++
  ["EOF",
   ")",
   "if [ -z \"$PROJECT_UUID\" ]; then",
   "  echo \"Error: project creation returned no uuid\" >&2",
   "  exit 1",
   "fi",
   "echo \"Project uuid: $PROJECT_UUID\""]

def remarks (o : Operation) : List String :=
  (match o.note with
    | none => []
    | some "" => []
    | some s => ["# " ++ s]) ++
  if o.environment.isEmpty then []
  else
    "# Runtime environment (configure in Coolify):" ::
      o.environment.map fun e => "#   " ++ e.1 ++ "=" ++ e.2

def block (withRemarks : Bool) (o : Operation) : List String :=
  (if withRemarks then remarks o else []) ++
  [announce ("Creating " ++ o.category.name ++ ": " ++ o.displayName), call "-X" o] ++ headers ++
  ["  -d @- <<EOF"] ++ body o ++ ["EOF", "echo"]

def operationLines (withRemarks : Bool) (o : Operation) : List String :=
  (match o.category with
    | .project => projectBlock o
    | _ => block withRemarks o) ++ [""]

/-- The pieces of the script, in order. A piece may hold line breaks of its own. -/
def pieces (withRemarks : Bool) (os : List Operation) : List String :=
  guard os ++ os.flatMap (operationLines withRemarks) ++ ["echo \"Done.\""]

def render (withRemarks : Bool) (os : List Operation) : String :=
  joined "\n" (pieces withRemarks os) ++ "\n"

end HostPlan.Script
