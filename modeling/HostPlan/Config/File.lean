import HostPlan.Config.Reading
import HostPlan.Data.Yaml.Reader
import HostPlan.File
import HostPlan.Text.File
/-!
Files that hold a configuration, where they are looked for, and what a new one says. A configuration
is written in YAML, which JSON is a part of.
-/
namespace HostPlan.Config

/-- The names under which a configuration is looked for, the first of them first. -/
def searchPlaces : List String :=
  ["aspire2coolify.yaml", "aspire2coolify.yml", "aspire2coolify.json", ".aspire2coolifyrc",
   ".aspire2coolifyrc.yaml", ".aspire2coolifyrc.json"]

def defaultName : String := "aspire2coolify.yaml"

def dataOf (path : String) : File.Contents → Except Failure Value
  | .error fault => .error (.refused (.unreadable path (fault.reason path)))
  | .ok bytes =>
    match Text.fileText? bytes with
    | none => .error .undecodable
    | some text =>
      match Yaml.read text with
      | .error e => .error (.refused (.malformed path (e.message text)))
      | .ok .null => .ok (.record [])
      | .ok (.record fields) => .ok (.record fields)
      | .ok _ => .error (.refused (.noMapping path))

def ofFile (path : String) (contents : File.Contents) : Except Failure Config := do
  let data ← dataOf path contents
  ofData data (some path)

def fileNotes (path : String) (contents : File.Contents) : List Note :=
  match dataOf path contents with
  | .ok data => ⟨.debug, "config", "Loaded config from " ++ path⟩ :: notes data
  | .error _ => []

def template : String :=
  "# aspire2coolify configuration
coolify:
  # api_url: https://your-coolify-instance.com
  # token: your-api-token          # or use the COOLIFY_TOKEN env var
  # project_id: your-project-uuid
  # project_name: MyApp              # used to create the project when project_id is empty
  # server_id: your-server-uuid
  # environment_name: production
  # skip_existing: false           # skip resources that already exist instead of failing

# Git source for applications (optional)
# github:
#   repository: https://github.com/your-org/your-repo
#   branch: main
#   base_path: ''
#   app_uuid: ''                   # GitHub App UUID for private repositories

defaults:
  # build_pack: nixpacks           # nixpacks | dockerfile | static | dockercompose

output:
  include_comments: true
  format: shell                    # shell | json | yaml
"

end HostPlan.Config
