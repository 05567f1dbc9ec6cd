import Literate.Markdown.Inline

/-!
# Tables

A table starts with two lines: its head, and a row of hyphens that sets the columns and their
alignment. Both must have the same number of columns. Bars set cells apart; a bar behind a backslash
belongs to its cell.
-/

namespace Literate.Markdown

/-- How the cells of a column are set. -/
inductive Alignment where
  | none
  | left
  | center
  | right
  deriving DecidableEq

/-! ## The row of hyphens -/

/-- What has been seen of a row of hyphens. -/
structure Columns where
  /-- The columns that are complete, the last one first. -/
  complete : List Alignment
  current : Alignment
  /-- Whether the current column is still empty. -/
  empty : Bool
  /-- Whether the current column has a hyphen. -/
  hyphen : Bool
  /-- Whether there has been a bar, and whether there has been a hyphen. -/
  anyBar : Bool
  anyHyphen : Bool

/-- Before anything has been seen, behind a bar or not. -/
def Columns.start (bar : Bool) : Columns :=
  ⟨[], .none, true, false, bar, false⟩

/-- One character more. A colon in front of hyphens aligns to the left, one behind them to the right. -/
def Columns.step (k : Columns) (c : Char) : Option Columns :=
  if c == ' ' then some k
  else if c == ':' then
    let current := match k.empty, k.current with
      | true, .none => .left
      | false, .left => .center
      | false, .none => .right
      | _, current => current
    some { k with current, empty := false }
  else if c == '-' then some { k with empty := false, hyphen := true, anyHyphen := true }
  else if c == '|' && k.hyphen then
    some ⟨k.current :: k.complete, .none, true, false, true, k.anyHyphen⟩
  else none

/-- The columns at the end of the row. -/
def Columns.finish? (k : Columns) : Option (List Alignment) :=
  let complete := if k.empty then k.complete else k.current :: k.complete
  if k.anyBar && k.anyHyphen then some complete.reverse else none

/-- The columns that the row of hyphens at a position sets, and the position behind it. -/
def hyphenRow? (s : Source) (i : Nat) : Option (List Alignment × Nat) := do
  let (indent, c) := (Cursor.start i).columns s 4
  guard (indent < 4)
  let bar := s.has '|' c.pos
  let start := if bar then c.pos + 1 else c.pos
  let stop := s.skip (fun d => d != '\n' && d != '\r') start
  let seen ← (s.slice start stop).foldlM Columns.step (Columns.start bar)
  let columns ← seen.finish?
  return (columns, ← s.lineEnd? stop)

/-! ## The head -/

/-- The positions of the bars between two positions, the last one first. -/
def bars (s : Source) (i stop : Nat) : List Nat :=
  ((List.range' i (stop - i)).filter fun j => s.has '|' j && !(0 < j && s.has '\\' (j - 1))).reverse

/-- The number of columns of a head between two positions. -/
def headColumns (s : Source) (i stop : Nat) : Nat :=
  match bars s i stop with
  | [] => 0
  | last :: others =>
    let first := if s.has '|' (s.skip isInnerBlank i) then 0 else 1
    let behind := if (s.blankLine? (last + 1)).isSome then 0 else 1
    others.length + first + behind

/-- The columns of the table whose head is at a position, and the position of its first row. -/
def table? (s : Source) (containers : List Container) (i : Nat) : Option (List Alignment × Nat) := do
  let stop := s.skip (fun c => c != '\n' && c != '\r') i
  guard (stop < s.stop && (s.slice i stop).contains '|')
  let next ← s.lineEnd? stop
  let (resumed, c) := resume s (.start next) containers
  guard (resumed == containers.length)
  let (columns, body) ← hyphenRow? s c.pos
  guard (columns.length == headColumns s i stop)
  return (columns, body)

/-! ## Rows -/

/-- The cells of the row at a position, behind those read so far with the last one first, and the
position behind the row. -/
def rowFrom (s : Source) (containers : List Container) (cells : List Leaf) (i : Nat) :
    List Leaf × Nat :=
  let start := s.skip isInnerBlank (if s.has '|' i then i + 1 else i)
  match s.lineEnd? start with
  | some next => (cells.reverse, next)
  | none =>
    let (items, stop) := readCell s start
    let cells := (⟨items, stop, containers, true⟩ : Leaf) :: cells
    if i < s.stop ∧ i < stop then rowFrom s containers cells stop else (cells.reverse, stop)
  termination_by s.stop - i

/-- A row with exactly `n` cells. -/
def fitRow (containers : List Container) (n : Nat) (cells : List Leaf) : List Leaf :=
  (cells ++ List.replicate n (⟨[], 0, containers, true⟩ : Leaf)).take n

end Literate.Markdown
