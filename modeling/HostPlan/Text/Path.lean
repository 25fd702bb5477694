import HostPlan.Text.Search
/-!
Paths of files, taken by their text alone.
-/
namespace HostPlan.Path

open Text

/-- The steps of a path. Steps that stay where they are do not count. -/
def steps (path : String) : List (List Char) :=
  (cutAt '/' path.toList).filter fun p => !(p.isEmpty || p == ['.'])

def isAbsolute (path : String) : Bool := path.toList.head? == some '/'

/-- The directory that some steps lead to; the first list is read backwards. -/
def walk (done : List (List Char)) : List (List Char) → List (List Char)
  | [] => done.reverse
  | p :: r => if p = ['.', '.'] then walk done.tail r else walk (p :: done) r

/-- The steps from the root to a path, which may start in a directory. -/
def resolved (directory path : String) : List (List Char) :=
  walk [] (if isAbsolute path then steps path else steps directory ++ steps path)

def ofSteps (ps : List (List Char)) : String :=
  if ps.isEmpty then "/" else String.ofList (ps.flatMap fun p => '/' :: p)

def absolute (directory path : String) : String := ofSteps (resolved directory path)

/-- The path without steps that stay where they are. -/
def tidy (path : String) : String :=
  let ps := steps path
  if isAbsolute path then ofSteps ps
  else if ps.isEmpty then "."
  else joined "/" (ps.map String.ofList)

end HostPlan.Path
