import Literate.Markdown.Source

/-!
# Marks at the front of a line

What kind of block a line starts is told by the marks that it starts with: the signs of a heading, a
rule, the fence of a code block, the mark of a list item. The functions here look at a position
behind the indentation.
-/

namespace Literate.Markdown

/-- The position behind a thematic break: three or more of the same mark with blanks between them. -/
def rule? (s : Source) (i : Nat) : Option Nat :=
  match s.get? i with
  | some c =>
    if c == '*' || c == '-' || c == '_' then
      let stop := s.skip (fun d => d == c || isSpaceOrTab d) i
      (s.lineEnd? stop).filter fun _ => 3 ≤ ((s.slice i stop).filter (· == c)).length
    else none
  | none => none

/-- The level of the heading that starts at a position: up to six number signs before a blank or the
end of the source. -/
def headingLevel? (s : Source) (i : Nat) : Option Nat :=
  let stop := s.skip (· == '#') i
  let level := stop - i
  let ends := match s.get? stop with
    | some c => isSourceBlank c
    | none => true
  if 1 ≤ level && level ≤ 6 && ends then some level else none

/-- The level of a heading that the line at a position underlines, and the position behind it. -/
def underline? (s : Source) (i : Nat) : Option (Nat × Nat) :=
  match s.get? i with
  | some '=' => (s.blankLine? (s.skip (· == '=') i)).map ((1, ·))
  | some '-' => (s.blankLine? (s.skip (· == '-') i)).map ((2, ·))
  | _ => none

/-- Mark and length of the code fence at a position. Backticks are a fence only if no other stands on
their line. -/
def fence? (s : Source) (i : Nat) : Option (Char × Nat) :=
  match s.get? i with
  | some c =>
    if c == '`' || c == '~' then
      let stop := s.skip (· == c) i
      let line := s.slice stop (s.nextLine stop)
      if 3 ≤ stop - i && (c == '~' || !line.contains '`') then some (c, stop - i) else none
    else none
  | none => none

/-- The position behind a fence that closes another one; the end of the source closes every fence. -/
def closingFence? (s : Source) (mark : Char) (length : Nat) (i : Nat) : Option Nat :=
  if i < s.stop then
    let stop := s.skip (· == mark) i
    let behind := s.skip (· == ' ') stop
    if length ≤ stop - i && s.atLineEnd behind then some behind else none
  else some i

/-- Whether a character marks the items of a bullet list. -/
def isBullet (c : Char) : Bool :=
  c == '-' || c == '+' || c == '*'

/-- The number that the digits at a position spell, and the position behind them. -/
def decimalAt (s : Source) (i : Nat) : Nat × Nat :=
  let stop := s.skip Char.isDigit i
  ((s.slice i stop).foldl (fun n d => n * 10 + (d.toNat - '0'.toNat)) 0, stop)

/-- The number of an item has no more digits than this. -/
def mostDigits : Nat := 9

/-- The number of the list item that a mark at a position could start, if it has one, and the position
behind the mark. -/
def itemStart? (s : Source) (i : Nat) : Option (Option Nat × Nat) :=
  let goes := fun j => s.test isSpaceOrTab j || s.atLineEnd j
  match s.get? i with
  | some c =>
    if isBullet c then if goes (i + 1) then some (none, i + 1) else none
    else
      let (number, stop) := decimalAt s i
      if i < stop && stop ≤ i + mostDigits && (s.has '.' stop || s.has ')' stop) && goes (stop + 1) then
        some (some number, stop + 1)
      else none
  | none => none

end Literate.Markdown
