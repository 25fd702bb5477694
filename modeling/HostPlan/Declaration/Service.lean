import HostPlan.Declaration.Rule
import HostPlan.Source.Chain
/-!
Services that run from an image: brokers, stores of objects and any other container.
-/
namespace HostPlan.Declaration

open Source

def serviceKind? : String → Option String
  | "AddMinio" | "AddMinioContainer" => some "minio"
  | "AddRabbitMQ" | "AddRabbitMQContainer" => some "rabbitmq"
  | "AddKeycloak" | "AddKeycloakContainer" => some "keycloak"
  | "AddSeq" | "AddSeqContainer" => some "seq"
  | "AddMailDev" | "AddMailDevContainer" => some "maildev"
  | "AddKafka" | "AddKafkaContainer" => some "kafka"
  | "AddElasticsearch" | "AddElasticsearchContainer" => some "elasticsearch"
  | "AddGarnet" | "AddValkey" => some "redis"
  | "AddContainer" => some "custom"
  | _ => none

private def addEndpoint (e : Endpoint) (s : Service) : Service :=
  { s with endpoints := s.endpoints ++ [e] }

private def addVolume (v : Volume) (s : Service) : Service :=
  { s with volumes := s.volumes ++ [v] }

def serviceRules : Rules Service
  | "WithImage" => some (.overwrite MethodCall.literal? fun v s => { s with image := v })
  | "WithImageTag" => some (.overwrite MethodCall.literal? fun v s => { s with imageTag := v })
  | "WithHostPort" => some (.reset MethodCall.firstPort fun v s => { s with hostPort := v })
  | "WithEnvironment" =>
    some (.accumulate (.ok ∘ MethodCall.environmentVariable?)
      fun v s => { s with environment := s.environment ++ [v] })
  | "WithDataVolume" => some (.accumulate (fun c => .ok (some c.dataVolume)) addVolume)
  | "WithBindMount" => some (.accumulate (.ok ∘ MethodCall.bindMount?) addVolume)
  | "WithHttpEndpoint" => some (.accumulate (fun c => some <$> c.endpoint "http") addEndpoint)
  | "WithHttpsEndpoint" => some (.accumulate (fun c => some <$> c.endpoint "https") addEndpoint)
  | "WithExternalHttpEndpoints" => some (.always (addEndpoint { isExternal := true }))
  | "WithReference" =>
    some (.accumulate (.ok ∘ MethodCall.target?)
      fun v s => { s with references := s.references ++ [v] })
  | _ => none

/-- The service of a chain. A plain container may name its image beside its own name. -/
def service (c : Chain) : Reading Service :=
  applyCalls serviceRules 0 c.calls {
    name := c.name
    kind := (serviceKind? c.rootMethod).getD "custom"
    boundTo := c.boundTo
    image := if c.rootMethod = "AddContainer" then textArgument? c.rootArgs 1 else none }

end HostPlan.Declaration
