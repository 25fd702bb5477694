import HostPlan.Declaration.Application
import HostPlan.Declaration.Database
import HostPlan.Declaration.Service
import HostPlan.Model.Finding
import HostPlan.Model.Link
/-!
From chains to a model. Every chain declares at most one resource, and a chain that cannot be read
costs its own resource and no other.
-/
namespace HostPlan

/-- Why a part of a program is missing from its model. -/
inductive Problem where
  | unreadable (path reason : String)
  | failed (cause : Declaration.OversizedNumeral) (snippet : String)
  | unclosed (snippet : String)
deriving DecidableEq, Repr

namespace Problem

def message : Problem → String
  | .unreadable path reason => "Cannot read " ++ path ++ ": " ++ reason
  | .failed cause _ => "Failed to parse chain: " ++ cause.message
  | .unclosed _ => "Unbalanced chain skipped"

def context? : Problem → Option String
  | .unreadable _ _ => none
  | .failed _ snippet => some snippet
  | .unclosed snippet => some snippet

end Problem

/-- A model with what was found on the way to it. -/
structure Assembly where
  model : Model := {}
  problems : List Problem := []
  findings : List Finding := []
  chains : List Source.Chain := []
deriving Inhabited

namespace Declaration

open Source

def asDatabase (s : Service) : Database where
  name := s.name
  kind := .ofName s.kind
  boundTo := s.boundTo
  image := s.image
  imageTag := s.imageTag
  hostPort := s.hostPort
  hasDataVolume := s.volumes.any Volume.isData
  environment := s.environment

def asStorage (s : Service) : Storage where
  name := s.name
  kind := s.kind
  boundTo := s.boundTo
  image := s.image
  imageTag := s.imageTag
  hostPort := s.hostPort
  environment := s.environment
  volumes := s.volumes

/-- Containers that a model counts among the databases or the storage. -/
def place (s : Service) : Resource :=
  if s.kind = "redis" ∨ s.kind = "mongodb" then .database (asDatabase s)
  else if s.kind = "minio" then .storage (asStorage s)
  else .service s

/-- The resource that a chain declares, if its factory method is known. -/
def resource? (c : Chain) : Reading (Option Resource) :=
  if (engine? c.rootMethod).isSome then (some ∘ .database) <$> database c
  else if (serviceKind? c.rootMethod).isSome then (some ∘ place) <$> service c
  else if (applicationKind? c.rootMethod).isSome then (some ∘ .application) <$> application c
  else .ok none

def problem? (c : Chain) : Option Problem :=
  match resource? c with
  | .ok _ => none
  | .error e => some (.failed e (String.ofList (c.raw.toList.take snippetLength)))

def resources (chains : List Chain) : List Resource :=
  chains.filterMap fun c =>
    match resource? c with
    | .ok r => r
    | .error _ => none

/-- The model of some resources, each in its collection. -/
def collect (rs : List Resource) : Model where
  databases := rs.filterMap fun | .database d => some d | _ => none
  storage := rs.filterMap fun | .storage s => some s | _ => none
  services := rs.filterMap fun | .service s => some s | _ => none
  applications := rs.filterMap fun | .application a => some a | _ => none

/-- The model of some chains. Databases that chains add to a server come last and replace it. -/
def assemble (chains : List Chain) : Reading Assembly := do
  let declared := collect (resources chains)
  let added ← children chains
  let linkless : Model :=
    { declared with databases := withoutServers declared.databases added ++ added }
  let model : Model := { linkless with references := linkless.links }
  pure {
    model
    problems := chains.filterMap problem?
    findings := model.findings
    chains }

def readProgram (source : List Char) : Reading Assembly := do
  let a ← assemble (Source.chains source)
  pure { a with problems := a.problems ++ (brokenChains source).map .unclosed }

end Declaration
end HostPlan
