import HostPlan.Terminal.Line
/-!
Tables with a frame, and panels. A column is as wide as its widest cell. When a table is wider than
the terminal, its widest columns give way first, and what does not fit into them is broken between
words or cut.
-/
namespace HostPlan.Terminal

open Text

structure Column where
  header : String
  /-- Numbers stand at the right. -/
  right : Bool := false

structure Table where
  title : String
  columns : List Column
  rows : List (List String)
  /-- A line between one row and the next. -/
  ruled : Bool := false

def padding : Nat := 2

def isLineEnd (c : Char) : Bool :=
  let n := c.toNat
  (decide (10 ≤ n) && decide (n ≤ 13)) || (decide (28 ≤ n) && decide (n ≤ 30)) || n == 0x85 ||
    n == 0x2028 || n == 0x2029

/-- The width of the widest line in a text. -/
def span (s : List Char) : Nat :=
  match s.dropWhile fun c => !isLineEnd c with
  | [] => width s
  | _ :: _ =>
    (s.foldl (fun (best, here) c =>
      if isLineEnd c then (best, 0)
      else (max best (here + charWidth c), here + charWidth c)) (0, 0)).1

/-- Half of a number, an even one when it lies between two. -/
def roundDiv (n d : Nat) : Nat :=
  let q := n / d
  if 2 * (n % d) < d then q
  else if d < 2 * (n % d) then q + 1
  else q + q % 2

/-- The width of some columns side by side. -/
def total : List Nat → Nat
  | [] => 0
  | w :: r => w + total r

/-- Takes an excess from the columns that are marked, but no more than a limit from each. -/
def reduce (limit : Nat) : Nat → Nat → List (Bool × Nat) → List Nat
  | _, _, [] => []
  | excess, marked, (isMarked, w) :: r =>
    if isMarked ∧ 0 < marked ∧ 0 < limit then
      let taken := min limit (roundDiv excess marked)
      (w - taken) :: reduce limit (excess - taken) (marked - 1) r
    else w :: reduce limit excess marked r

/-- Widths that sum up to no more than there is room for, if the widest columns can give that much.
-/
def collapse (room : Nat) : Nat → List Nat → List Nat
  | 0, ws => ws
  | fuel + 1, ws =>
    if total ws ≤ room then ws
    else
      let widest := ws.foldl max 0
      let second := (ws.filter (· != widest)).foldl max 0
      let excess := total ws - room
      let count := ws.count widest
      if widest = second then ws
      else
        collapse room fuel
          (reduce (min excess (widest - second)) excess count (ws.map fun w => (w == widest, w)))

namespace Table

def cellsOf (t : Table) (i : Nat) : List (List Char) :=
  (t.columns.map Column.header :: t.rows).map fun r => sanitized ((r[i]?).getD "").toList

/-- The width of every column with the space around its text. -/
def widths (t : Table) : List Nat :=
  let room := Terminal.columns - (t.columns.length + 1)
  let wanted := (List.range t.columns.length).map fun i =>
    min room ((((t.cellsOf i).map span).foldl max 0) + padding)
  collapse room (Terminal.columns + 1) wanted

def cellLines (right : Bool) (w : Nat) (s : List Char) : List (List Char) :=
  let room := w - padding
  ((writtenLines s).flatMap (wrapLine false room)).map fun l =>
    let l := cut false room (if right then trimEnd l else l)
    ' ' :: ((if right then padLeft room l else padRight room l) ++ [' '])

/-- Lines of a frame: what stands at its left, between its columns and at its right. -/
structure Frame where
  left : Char
  middle : Char
  right : Char

def Frame.join (f : Frame) : List (List Char) → List Char
  | [] => [f.left, f.right]
  | c :: r => f.left :: (c ++ (r.flatMap fun c => f.middle :: c) ++ [f.right])

def rule (f : Frame) (line : Char) (ws : List Nat) : List Char :=
  f.join (ws.map fun w => List.replicate w line)

/-- A row; all its cells are as high as the highest. -/
def row (f : Frame) (ws : List Nat) (cells : List (List (List Char))) : List (List Char) :=
  let height := (cells.map List.length).foldl max 0
  (List.range height).map fun i =>
    f.join (List.zipWith (fun w cell => (cell[i]?).getD (List.replicate w ' ')) ws cells)

def rowOf (t : Table) (f : Frame) (ws : List Nat) (texts : List String) : List (List Char) :=
  row f ws (List.zipWith (fun (c, w) s => cellLines c.right w s.toList) (t.columns.zip ws) texts)

def lines (t : Table) : List (List Char) :=
  let ws := t.widths
  let whole := total ws + t.columns.length + 1
  let body := t.rows.map (t.rowOf ⟨'│', '│', '│'⟩ ws)
  let between := if t.ruled then [rule ⟨'├', '┼', '┤'⟩ '─' ws] else []
  [centered whole t.title.toList, rule ⟨'┏', '┳', '┓'⟩ '━' ws] ++
    t.rowOf ⟨'┃', '┃', '┃'⟩ ws (t.columns.map Column.header) ++
    [rule ⟨'┡', '╇', '┩'⟩ '━' ws] ++
    (body.intersperse between).flatten ++
    [rule ⟨'└', '┴', '┘'⟩ '─' ws]

def printed (t : Table) : String := ended t.lines

end Table

/-- A panel around some lines, as wide as the terminal. -/
def panel (content : List String) : String :=
  let side := List.replicate (columns - 2) '─'
  ended ([['╭'] ++ side ++ ['╮']] ++
    (content.map fun l => ['│', ' '] ++ padRight (columns - 4) l.toList ++ [' ', '│']) ++
    [['╰'] ++ side ++ ['╯']])

end HostPlan.Terminal
