import HostPlan.Deploy.Inventory
import HostPlan.Deploy.Result
import HostPlan.Dialogue
import HostPlan.Log
import HostPlan.Plan.Build
/-!
A deployment. What exists is listed once; then every resource of the model has its turn, in the
order of a plan, and what becomes of one does not touch the others. What is done about a resource
is decided from the inventory alone, and how it ended from the answer to its own call.
-/
namespace HostPlan.Deploy

open Remote

structure Settings where
  target : Target
  instant : Scalar := .null
  skipExisting : Bool := false
  repository : Option Repository := none
  buildPack : Scalar := .null
deriving DecidableEq, Repr

def remoteEngine : HostPlan.Engine → Remote.Engine
  | .postgres => .postgres
  | .sqlserver => .postgres
  | .mysql => .mysql
  | .mongodb => .mongo
  | .redis => .redis

def remoteSource : Flavor → Remote.Source
  | .privateRepository => .privateRepository
  | .publicRepository => .publicRepository
  | .image => .image

/-- The call that creates a resource; there is none for a database of an unknown kind. -/
def call? (s : Settings) : Resource → Option Call
  | .database d =>
    match d.kind with
    | .engine e =>
      some (.createDatabase (remoteEngine e) (Payload.toValue (d.payload s.target s.instant)))
    | .other _ _ => none
  | .storage r =>
    some (.createService (Payload.toValue (servicePayload r.kind r.name s.target s.instant)))
  | .service r =>
    some (.createService (Payload.toValue (servicePayload r.kind r.name s.target s.instant)))
  | .application a =>
    some (.createApplication (remoteSource (Application.flavor s.repository))
      (Payload.toValue (a.payload s.target s.instant s.repository s.buildPack)))

/-- What is done about a resource. -/
inductive Decision where
  | skip (identifier : Value)
  | refuse
  | unsupported
  | create (c : Call)
deriving Repr

def decision (s : Settings) (inventory : Inventory) (r : Resource) : Decision :=
  match inventory.existing? r with
  | some identifier => if s.skipExisting then .skip identifier else .refuse
  | none =>
    match call? s r with
    | some c => .create c
    | none => .unsupported

/-- An answer, or an exception with its text. -/
inductive Reply where
  | answered (a : Answer)
  | raised (message : String)
deriving Repr, Inhabited

/-- A listing that raised an exception has failed. -/
def Reply.answer : Reply → Answer
  | .answered a => a
  | .raised message => .failure (.text message)

def label : Category → String
  | .database => "Database"
  | .storage => "Storage service"
  | .service => "Service"
  | .application => "Application"
  | .project => "Project"
  | .other name => name

/-- The label inside a sentence. -/
def noun : Category → String
  | .database => "database"
  | .storage => "storage service"
  | .service => "service"
  | .application => "application"
  | .project => "project"
  | .other name => name

def quotedName (r : Resource) : String := "\"" ++ r.name ++ "\""

def alreadyExists (r : Resource) : String :=
  label r.category ++ " " ++ quotedName r ++ " already exists"

/-- How the creation of a resource ended. -/
def concluded (r : Resource) : Reply → Result
  | .answered (.success data) => .created r (data.field "uuid")
  | .answered (.failure error) =>
    .failed r (if error.isFilled then error else .text "Unknown error")
  | .raised message => .failed r (.text message)

/-- What there is to say about the creation of a resource. -/
def creationLine (r : Resource) (result : Result) : String :=
  if result.success then
    "  ✓ Created " ++ noun r.category ++ " " ++ r.name ++ " (uuid: " ++
      result.identifier.display ++ ")"
  else
    "  ✗ Failed to create " ++ noun r.category ++ " " ++ r.name ++ ": " ++ result.error.display

inductive Query where
  | call (c : Call)
  | say (line : String)
  | log (note : Note)

abbrev Response : Query → Type
  | .call _ => Reply
  | .say _ => Unit
  | .log _ => Unit

abbrev Talk := Dialogue Query Response

def say (line : String) : Talk Unit := .ask (.say line) .done
def log (level : Level) (part text : String) : Talk Unit := .ask (.log ⟨level, part, text⟩) .done
def request (c : Call) : Talk Reply := .ask (.call c) .done

/-- One warning per text, noted as well. -/
def warn (part : String) (texts : List String) : Talk Unit :=
  texts.forM (log .warning part)

def heading (r : Resource) : String :=
  noun r.category ++ ": " ++ r.name ++ " (" ++ r.kindName ++ ")"

def deployOne (s : Settings) (inventory : Inventory) (r : Resource) : Talk Result := do
  say ("Creating " ++ heading r ++ "...")
  match decision s inventory r with
  | .skip identifier =>
    say ("  ⊘ Skipped " ++ noun r.category ++ " " ++ quotedName r ++ " (already exists)")
    pure (.existing r identifier)
  | .refuse =>
    say ("  ✗ " ++ alreadyExists r ++ " (use --skip-existing to skip)")
    pure (.failed r (.text (alreadyExists r)))
  | .unsupported =>
    let result := .failed r (.text ("Unsupported database type: " ++ r.kindName))
    say (creationLine r result)
    pure result
  | .create c =>
    warn "rules" r.warning?.toList
    let reply ← request c
    let result := concluded r reply
    say (creationLine r result)
    pure result

/-- The turn of a resource when nothing is to be done. -/
def rehearseOne (r : Resource) : Talk Result := do
  say ("[DRY RUN] Would create " ++ heading r)
  say ("  ✓ " ++ label r.category ++ " " ++ r.name ++ " planned")
  pure (.created r (.text "dry-run-uuid"))

def listingWarning? (what : String) : Answer → Option String
  | .success _ => none
  | .failure error => some ("Could not list existing " ++ what ++ ": " ++ error.display)

def list (what : String) (c : Call) : Talk Answer := do
  let reply ← request c
  warn "engine" (listingWarning? what reply.answer).toList
  pure reply.answer

/-- The warnings about what is going to be created. -/
def warnings (s : Settings) (inventory : Inventory) (rs : List Resource) : List String :=
  rs.filterMap fun r =>
    match decision s inventory r with
    | .create _ => r.warning?
    | _ => none

def count (n : Nat) : String := String.ofList (Text.decimal n)

def finish (summary : Summary) : Talk Summary := do
  log .debug "engine" ("Deployment finished: " ++ count summary.successful ++ " created, " ++
    count summary.failed ++ " failed, " ++ count summary.skipped ++ " skipped")
  pure summary

def rehearse (m : Model) : Talk Summary := do
  let results ← m.resources.mapM rehearseOne
  finish { results }

def deploy (s : Settings) (m : Model) : Talk Summary := do
  say "Fetching existing resources..."
  let databases ← list "databases" .databases
  let applications ← list "applications" .applications
  let services ← list "services" .services
  let inventory := Inventory.of databases applications services
  say ("  Found " ++ count inventory.databases.length ++ " databases, " ++
    count inventory.applications.length ++ " applications, " ++
    count inventory.services.length ++ " services")
  let results ← m.resources.mapM (deployOne s inventory)
  finish {
    results
    warnings := (listingWarning? "databases" databases).toList ++
      (listingWarning? "applications" applications).toList ++
      (listingWarning? "services" services).toList ++
      warnings s inventory m.resources }

end HostPlan.Deploy
