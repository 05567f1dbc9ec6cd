import Literate.Markdown.Entity
import Literate.Text.Blank

/-!
# The items of a line

The text of a paragraph, a heading or a cell is cut into items, line by line: stretches of plain text,
runs of delimiters, backticks, brackets and breaks. An item keeps the positions between which it
stands. Whether a delimiter opens or closes emphasis is settled by the characters around it; all else
about delimiters is settled later, when the items of all lines are together.
-/

namespace Literate.Markdown

/-- What stands in a line. -/
inductive ItemKind where
  /-- Plain text. -/
  | text
  /-- Text that stands for an entity. -/
  | value (t : Text)
  | softBreak
  /-- A hard break, and whether a backslash makes it. -/
  | hardBreak (slash : Bool)
  /-- A block between the lines of a tight list item, by its number. -/
  | block (n : Nat)
  /-- A run of `*`, `_` or `~`. -/
  | run (c : Char) (count : Nat) (canOpen canClose : Bool)
  /-- A run of backticks, the first of which may be escaped. -/
  | ticks (count : Nat) (escaped : Bool)
  /-- An angle bracket. -/
  | angle
  /-- The opening bracket of a link or an image. -/
  | opening (image : Bool)
  /-- The closing bracket of a link or an image. -/
  | closing

/-- An item and where it stands. -/
structure Item where
  start : Nat
  stop : Nat
  kind : ItemKind

/-! ## Delimiters -/

/-- What a run of delimiters has around it: the character before it on its line, the character behind
it, and whether that is the bar behind a cell. -/
structure Surroundings where
  before : Option Char
  after : Option Char
  endsCell : Bool

/-- Whether a run can open emphasis. Stars and double tildes may stand inside a word. -/
def Surroundings.canOpen (a : Surroundings) (c : Char) (count : Nat) : Bool :=
  match a.before, a.after with
  | _, none => false
  | none, some next => !isBlank next
  | some d, some next =>
    if isBlank next || a.endsCell then false
    else (c == '*' && !isPunctuation next) || (c == '~' && 1 < count)
      || (c == '~' && d == '~' && !isPunctuation next) || isBlank d || isPunctuation d

/-- Whether a run can close emphasis. -/
def Surroundings.canClose (a : Surroundings) (c : Char) (count : Nat) : Bool :=
  match a.before, a.after with
  | none, _ => false
  | some d, none => !isBlank d
  | some d, some next =>
    if isBlank d then false
    else a.endsCell || ((c == '*' || (c == '~' && 1 < count)) && !isPunctuation d)
      || (c == '~' && d == '~') || isBlank next || isPunctuation next

/-- Whether a character forms runs of delimiters. -/
def isDelimiter (c : Char) : Bool :=
  c == '*' || c == '_' || c == '~'

/-- The run of delimiters between two positions of a line that starts at `line`. -/
def runItem (s : Source) (inCell : Bool) (line start stop : Nat) (c : Char) : Item :=
  let before := if line < start then s.get? (start - 1) else none
  let around : Surroundings := ⟨before, s.get? stop, inCell && s.has '|' stop⟩
  let count := stop - start
  ⟨start, stop, .run c count (around.canOpen c count) (around.canClose c count)⟩

/-- Whether what an item makes depends on the items around it. -/
def ItemKind.isOpen : ItemKind → Bool
  | .run _ _ _ _ => true
  | .ticks _ _ => true
  | .angle => true
  | .opening _ => true
  | .closing => true
  | _ => false

/-- Whether a run is more than plain text. No more than two tildes are. -/
def ItemKind.counts : ItemKind → Bool
  | .run c count canOpen canClose => (canOpen || canClose) && (c != '~' || count ≤ 2)
  | _ => true

/-! ## Reading a line -/

/-- The text between two positions as an item, in front of the items read so far, the last of which
comes first. -/
def withText (start stop : Nat) (items : List Item) : List Item :=
  if start < stop then ⟨start, stop, .text⟩ :: items else items

/-- The items of a line, the last one first, the start of the plain text that is not among them yet,
and the position where the line ends. -/
structure LineItems where
  items : List Item
  pending : Nat
  stop : Nat

/-- Reads a line from a position on. In a cell the line ends at a bar too. -/
def lineFrom (s : Source) (inCell : Bool) (line : Nat) (items : List Item) (pending i : Nat) :
    LineItems :=
  if i < s.stop then
    let add := fun (item : Item) =>
      lineFrom s inCell line (item :: withText pending i items) item.stop (max (i + 1) item.stop)
    let plain := fun (_ : Unit) => lineFrom s inCell line items pending (i + 1)
    match s.get? i with
    | none => ⟨items, pending, i⟩
    | some c =>
      if c == '\n' || c == '\r' then ⟨items, pending, i⟩
      else if c == '\\' then
        if s.has '`' (i + 1) then
          let stop := s.skip (· == '`') (i + 1)
          add ⟨i + 1, stop, .ticks (stop - (i + 1)) true⟩
        else if inCell && s.hasText "\\\\|".toList i then
          lineFrom s inCell line (withText pending i items) (i + 2) (i + 3)
        else if escapesAt s i then lineFrom s inCell line (withText pending i items) (i + 1) (i + 2)
        else plain ()
      else if isDelimiter c then
        let stop := max (i + 1) (s.skip (· == c) i)
        let item := runItem s inCell line i stop c
        if item.kind.counts then add item
        else lineFrom s inCell line items pending stop
      else if c == '`' then
        let stop := s.skip (· == '`') i
        add ⟨i, stop, .ticks (stop - i) false⟩
      else if c == '<' then if s.has '\\' (i + 1) then plain () else add ⟨i, i + 1, .angle⟩
      else if c == '!' then if s.has '[' (i + 1) then add ⟨i, i + 2, .opening true⟩ else plain ()
      else if c == '[' then add ⟨i, i + 1, .opening false⟩
      else if c == ']' then add ⟨i, i + 1, .closing⟩
      else if c == '&' then
        match entityAt? s i with
        | some (value, stop) => add ⟨i, stop, .value value⟩
        | none => plain ()
      else if c == '|' && inCell && !(0 < i && s.has '\\' (i - 1)) then ⟨items, pending, i⟩
      else plain ()
  else ⟨items, pending, i⟩
  termination_by s.stop - i

/-- The line with its last plain text, which ends before the position `stop`. -/
def LineItems.closed (line : LineItems) (stop : Nat) : List Item :=
  withText line.pending stop line.items

/-- The items of a line, the break behind it if it has a line end, and the start of the next line. -/
structure Line where
  items : List Item
  lineBreak : Option Item
  next : Nat

/-- Reads the line at a position. Blanks before its end are dropped; two of them or more, or an odd
number of backslashes, make a hard break. -/
def readLine (s : Source) (i : Nat) : Line :=
  let line := lineFrom s false i [] i i
  let stop := line.stop
  let blank := s.back isInnerBlank stop
  match s.get? stop, s.lineEnd? stop with
  | some _, some next =>
    if s.oddSlashes stop && next < s.stop then
      ⟨(line.closed (stop - 1)).reverse, some ⟨stop - 1, next, .hardBreak true⟩, next⟩
    else if 2 ≤ stop - blank then
      ⟨(line.closed blank).reverse, some ⟨blank, next, .hardBreak false⟩, next⟩
    else ⟨(line.closed blank).reverse, some ⟨stop, next, .softBreak⟩, next⟩
  | _, _ => ⟨(line.closed blank).reverse, none, stop⟩

/-- Reads the cell of a table at a position: its items, and the position behind it. -/
def readCell (s : Source) (i : Nat) : List Item × Nat :=
  let line := lineFrom s true i [] i i
  ((line.closed (s.back isInnerBlank line.stop)).reverse, line.stop)

end Literate.Markdown
