import HostPlan.Data.Yaml.Name
/-!
Tokens of YAML. Where a line is indented further than the lines before it, and where it is no
longer, there are tokens for the start and the end of a block.
-/
namespace HostPlan.Yaml

inductive Token where
  | directive (d : Directive)
  | documentStart
  | documentEnd
  | streamEnd
  | blockSequence
  | blockMapping
  | blockEnd
  | openList
  | closeList
  | openRecord
  | closeRecord
  | blockEntry
  | flowEntry
  | key
  | value
  | alias (name : String)
  | anchor (name : String)
  | tag (name : String)
  | scalar (plain : Bool) (text : List Char)
deriving DecidableEq, Repr

def Token.name : Token → String
  | .directive _ => "<directive>"
  | .documentStart => "<document start>"
  | .documentEnd => "<document end>"
  | .streamEnd => "<stream end>"
  | .blockSequence => "<block sequence start>"
  | .blockMapping => "<block mapping start>"
  | .blockEnd => "<block end>"
  | .openList => "["
  | .closeList => "]"
  | .openRecord => "\x7b"
  | .closeRecord => "\x7d"
  | .blockEntry => "-"
  | .flowEntry => ","
  | .key => "?"
  | .value => ":"
  | .alias _ => "<alias>"
  | .anchor _ => "<anchor>"
  | .tag _ => "<tag>"
  | .scalar _ _ => "<scalar>"

structure Placed where
  token : Token
  start : Mark
  stop : Mark
deriving Repr

end HostPlan.Yaml
