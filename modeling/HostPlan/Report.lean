import HostPlan.Deploy.Result
import HostPlan.Plan.Operation
import HostPlan.Terminal.Markup
import HostPlan.Terminal.Table
/-!
What is shown to the user of the command line: messages, what a model holds, what a plan does, and
what became of a deployment.
-/
namespace HostPlan.Report

open Terminal

def listed (title : String) (messages : List String) : String :=
  if messages.isEmpty then ""
  else
    printedMarkup ("\n" ++ title ++ ":") ++
      String.join (messages.map fun m => printed ("  - " ++ m))

def messages (title : String) (errors warnings : List String) : String :=
  listed title errors ++ listed "Warnings" warnings

def count (n : Nat) : String := String.ofList (Text.decimal n)

def modelTable (m : Model) : Table where
  title := "Extracted Resources"
  columns := [⟨"Category", false⟩, ⟨"Count", true⟩, ⟨"Names", false⟩]
  rows :=
    [("Databases", m.databases.map Database.name), ("Storage", m.storage.map Storage.name),
      ("Services", m.services.map Service.name),
      ("Applications", m.applications.map Application.name)].map
        (fun (label, names) => [label, count names.length, Text.joined ", " names]) ++
    [["References", count m.references.length, ""]]

def operationTable (os : List Operation) : Table where
  title := "Planned Coolify Operations"
  columns := [⟨"#", true⟩, ⟨"Category", false⟩, ⟨"Name", false⟩, ⟨"Endpoint", false⟩]
  rows := (os.zipIdx 1).map fun (o, i) =>
    [count i, plainText o.category.name, o.displayName, o.method ++ " " ++ o.endpoint]

def status (r : Deploy.Result) : String :=
  if r.skipped then "SKIPPED" else if r.success then "CREATED" else "FAILED"

/-- The identifier of what there is now, or the reason why there is nothing. -/
def detail (r : Deploy.Result) : String :=
  let v := if r.success then r.identifier else r.error
  if v.isFilled then v.display else ""

def resultTable (rs : List Deploy.Result) : Table where
  title := "Deployment Report"
  columns := [⟨"Resource", false⟩, ⟨"Category", false⟩, ⟨"Status", false⟩, ⟨"Detail", false⟩]
  rows := rs.map fun r => [r.name, plainText r.category, status r, detail r]
  ruled := true

def deployment (s : Deploy.Summary) : String :=
  (resultTable s.results).printed ++
    panel ["Deployment Summary", "════════════════════════════════════════",
      "Successful: " ++ count s.successful, "Skipped:    " ++ count s.skipped,
      "Failed:     " ++ count s.failed]

end HostPlan.Report
