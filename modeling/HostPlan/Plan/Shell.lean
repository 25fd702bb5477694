import HostPlan.Plan.Target
/-!
Text inside a shell script: as one word of a command, and as lines of a here document.
-/
namespace HostPlan.Shell

/-- Characters that a word may hold without quotes. -/
def isSafe (c : Char) : Bool := c.isAlphanum || "@%+=:,./-_".toList.contains c

/-- Quotes stand around the text; a quote in it is written between quotes of the other kind. -/
def quoted (s : List Char) : List Char :=
  if s.isEmpty then ['\'', '\'']
  else if s.all isSafe then s
  else
    '\'' :: (s.flatMap fun c => if c = '\'' then "'\"'\"'".toList else [c]) ++ ['\'']

/-- Characters that the shell would act on in a here document. -/
def isActive (c : Char) : Bool := c == '\\' || c == '`' || c == '$'

def startsPlaceholder (s : List Char) : Bool :=
  Placeholder.all.any fun p => p.text.toList.isPrefixOf s

/-- The text for a here document, in which nothing but a placeholder is replaced. -/
def escaped : List Char → List Char
  | [] => []
  | c :: r =>
    if isActive c && !startsPlaceholder (c :: r) then '\\' :: c :: escaped r
    else c :: escaped r

end HostPlan.Shell
