import HostPlan.Data.Display
/-!
The calls that the platform understands, and its answers.
-/
namespace HostPlan.Remote

inductive Engine where
  | postgres
  | mysql
  | mariadb
  | mongo
  | redis
deriving DecidableEq, Repr

inductive Source where
  | image
  | dockerfile
  | publicRepository
  | privateRepository
deriving DecidableEq, Repr

inductive Call where
  | projects
  | createProject (name description : Value)
  | createEnvironment (project name : Value)
  | databases
  | applications
  | services
  | createDatabase (engine : Engine) (payload : Value)
  | createApplication (source : Source) (payload : Value)
  | createService (payload : Value)
deriving Repr

namespace Call

def path : Call → String
  | .projects => "/projects"
  | .createProject _ _ => "/projects"
  | .createEnvironment project _ => "/projects/" ++ project.display ++ "/environments"
  | .databases => "/databases"
  | .applications => "/applications"
  | .services => "/services"
  | .createDatabase .postgres _ => "/databases/postgresql"
  | .createDatabase .mysql _ => "/databases/mysql"
  | .createDatabase .mariadb _ => "/databases/mariadb"
  | .createDatabase .mongo _ => "/databases/mongodb"
  | .createDatabase .redis _ => "/databases/redis"
  | .createApplication .image _ => "/applications/dockerimage"
  | .createApplication .dockerfile _ => "/applications/dockerfile"
  | .createApplication .publicRepository _ => "/applications/public"
  | .createApplication .privateRepository _ => "/applications/private-github-app"
  | .createService _ => "/services"

/-- What the call sends; a call that sends nothing only reads. -/
def body? : Call → Option Value
  | .createProject name description =>
    some (.record ([("name", name)] ++
      if description.isFilled then [("description", description)] else []))
  | .createEnvironment _ name => some (.record [("name", name)])
  | .createDatabase _ payload => some payload
  | .createApplication _ payload => some payload
  | .createService payload => some payload
  | .projects => none
  | .databases => none
  | .applications => none
  | .services => none

def verb (c : Call) : String := if c.body?.isSome then "POST" else "GET"

end Call

/-- How a call ended. -/
inductive Answer where
  | success (data : Value)
  | failure (error : Value)
deriving Repr, Inhabited

namespace Answer

def isSuccess : Answer → Bool
  | .success _ => true
  | .failure _ => false

end Answer
end HostPlan.Remote
