import HostPlan.Data.Yaml.Quoted
/-!
Scalars without quotes. Such a scalar ends before a comment, before a colon that stands in front of
a gap, and inside brackets before a comma or a bracket. Its lines are joined as those of a quoted
one.
-/
namespace HostPlan.Yaml

/-- The part of a line that belongs to an unquoted scalar, up to a gap. -/
def plainRun (inBrackets : Bool) : List Char → List Char
  | [] => []
  | c :: r =>
    if c = '?' ∨ (c = ':' ∧ !isSpaceOrEnd (r.headD '\x00')) then c :: plainRun inBrackets r
    else if c = ':' ∨ isSpaceOrEnd c ∨ (inBrackets ∧ c ∈ ",[]{}".toList) then []
    else c :: plainRun inBrackets r

/-- Spaces and line breaks in front of the next line of a scalar, nothing if a document ends there.
-/
def skipLines : Nat → Cursor → Option (List Char) × Cursor
  | 0, s => (some [], s)
  | fuel + 1, s =>
    let s := s.skipWhile (· == ' ')
    match s.lineBreak? with
    | none => (some [], s)
    | some (c, s) =>
      if s.atSeparator then (none, s)
      else
        let (more, s) := skipLines fuel s
        (more.map (c :: ·), s)

/-- What a gap inside an unquoted scalar stands for, and whether a line ended there. -/
def plainGap (s : Cursor) : List Char × Bool × Cursor :=
  let (spaces, s) := s.span (· == ' ')
  match s.lineBreak? with
  | none => (spaces, false, s)
  | some (c, s) =>
    if s.atSeparator then ([], true, s)
    else
      match skipLines (s.rest.length + 1) s with
      | (some breaks, s) => (folded c breaks, true, s)
      | (none, s) => ([], true, s)

/-- An unquoted scalar whose further lines are indented to a least column. The flag says whether a
line has ended behind it. -/
def scanPlain (inBrackets : Bool) (least : Nat) : Nat → Cursor → List Char × Bool × Cursor
  | 0, s => ([], false, s)
  | fuel + 1, s =>
    let run := plainRun inBrackets s.rest
    let (gap, ended, s) := plainGap (s.skip run.length)
    let next := plainRun inBrackets s.rest
    if gap.isEmpty ∨ s.peek = '#' ∨ (!inBrackets ∧ s.mark.column < least) ∨ next.isEmpty then
      (run, ended, s)
    else
      let (text, ended, s) := scanPlain inBrackets least fuel s
      (run ++ gap ++ text, ended, s)

end HostPlan.Yaml
