import HostPlan.Declaration.Rule
import HostPlan.Source.Chain
/-!
Applications: projects, node programs, images built from a file, and executables.
-/
namespace HostPlan.Declaration

open Source Text

/-- The kind of application that a factory method declares, and how it is built. -/
def applicationKind? : String → Option (String × String)
  | "AddNpmApp" | "AddNodeApp" | "AddJavaScriptApp" => some ("npm", "nixpacks")
  | "AddProject" => some ("project", "dockerfile")
  | "AddDockerfile" => some ("dockerfile", "dockerfile")
  | "AddContainer" => some ("container", "dockerfile")
  | "AddExecutable" => some ("executable", "dockerfile")
  | _ => none

private def addApplicationEndpoint (e : Endpoint) (a : Application) : Application :=
  { a with endpoints := a.endpoints ++ [e] }

private def publish (mode : String) (a : Application) : Application :=
  { a with buildPack := "dockerfile", publishMode := some mode }

def applicationRules : Rules Application
  | "WithEnvironment" =>
    some (.accumulate (.ok ∘ MethodCall.environmentVariable?)
      fun v a => { a with environment := a.environment ++ [v] })
  | "WithHttpEndpoint" =>
    some (.accumulate (fun c => some <$> c.endpoint "http") addApplicationEndpoint)
  | "WithHttpsEndpoint" =>
    some (.accumulate (fun c => some <$> c.endpoint "https") addApplicationEndpoint)
  | "WithExternalHttpEndpoints" => some (.always (addApplicationEndpoint { isExternal := true }))
  | "WithServiceBinding" => some (.accumulate MethodCall.binding? addApplicationEndpoint)
  | "WithReference" =>
    some (.accumulate (.ok ∘ MethodCall.target?)
      fun v a => { a with references := a.references ++ [v] })
  | "WaitFor" =>
    some (.accumulate (.ok ∘ MethodCall.target?)
      fun v a => { a with waitFor := some (a.waitFor.getD [] ++ [v]) })
  | "PublishAsDockerFile" | "PublishAsDockerfile" => some (.always (publish "dockerfile"))
  | "PublishAsContainer" => some (.always (publish "container"))
  | "WithRunScript" => some (.overwrite MethodCall.firstText? fun v a => { a with runScript := v })
  | "WithNpm" =>
    some (.overwrite (MethodCall.named? · "installCommand")
      fun v a => { a with npmInstallCommand := v })
  | _ => none

/-- The second argument of a factory method, when it looks like a path. -/
def sourcePath? (args : List String) : Option String :=
  (textArgument? args 1).filter fun p => "./".toList.contains (p.toList.headD ' ')

/-- The type argument of the first `AddProject<…>` in a text. -/
def projectType? : List Char → Option (List Char)
  | [] => none
  | c :: r =>
    match ("AddProject".toList.isPrefixOf? (c :: r)).map trimStart with
    | some ('<' :: t) =>
      match t.takeWhile (· != '>'), t.dropWhile (· != '>') with
      | d :: name, '>' :: _ => some (trim (d :: name))
      | _, _ => projectType? r
    | _ => projectType? r

/-- The application of a chain, a project if its factory method is not known. -/
def application (c : Chain) : Reading Application :=
  let kind := (applicationKind? c.rootMethod).getD ("project", "dockerfile")
  applyCalls applicationRules 0 c.calls {
    name := c.name
    kind := kind.1
    buildPack := kind.2
    boundTo := c.boundTo
    sourcePath := sourcePath? c.rootArgs
    project :=
      if c.rootMethod = "AddProject" then (projectType? c.raw.toList).map String.ofList else none
    runScript := (namedArgument? c.rootArgs "runScriptName").map String.ofList }

end HostPlan.Declaration
