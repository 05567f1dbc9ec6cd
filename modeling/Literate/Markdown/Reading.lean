import Literate.Markdown.Definition

/-!
# Reading a page

A page is read line by line. A line first resumes the open containers; those that it does not resume
are closed. Then it may open new containers, and what stands behind their marks starts a block, which
takes all the lines that belong to it. Whether a list is tight is settled while it is open: it is loose
if a blank line stands between two of its items or between two blocks of an item.
-/

namespace Literate.Markdown

/-- A block and where it stands. -/
structure Placed where
  start : Nat
  stop : Nat
  block : Block

/-- The items of a tight list item: the lines of its paragraphs, with the other blocks between them.
The first of the blocks has the number `n`. -/
def tightItems (n : Nat) : List Placed → List Item
  | [] => []
  | ⟨start, stop, block⟩ :: rest =>
    let items := match block with
      | .paragraph leaf => leaf.items
      | _ => [⟨start, stop, .block n⟩]
    items ++ tightItems (n + 1) rest

/-- An open container with the position where it starts and its blocks, the last one first. -/
structure Frame where
  container : Container
  start : Nat
  blocks : List Placed

/-- The block that a container becomes when it is closed at a position; `containers` are the container
and those around it. -/
@[inline]
def Frame.block (f : Frame) (containers : List Container) (stop : Nat) : Block :=
  let placed := f.blocks.reverse
  let body := placed.map Placed.block
  match f.container with
  | .quote => .quote body
  | .list _ start tight => .list start tight body
  | .item _ => .item ⟨tightItems 0 placed, stop, containers, false⟩ body
  | .footnote label => .footnote label body

/-- A page in the middle of being read. -/
structure Reading where
  /-- The open containers, innermost first. -/
  frames : List Frame
  /-- The blocks outside of them, the last one first. -/
  blocks : List Block
  /-- Whether a blank line has been passed since the last block. -/
  blank : Bool
  /-- The position behind a bare item mark, while its item has no block. -/
  bare : Option Nat
  definitions : Definitions

namespace Reading

/-- Before the first line. -/
def empty : Reading :=
  ⟨[], [], false, none, ⟨[], []⟩⟩

/-- The open containers, outermost first. -/
def containers (r : Reading) : List Container :=
  (r.frames.map Frame.container).reverse

/-- One block more in the innermost container, between two positions. -/
def add (r : Reading) (start stop : Nat) (b : Block) : Reading :=
  match r.frames with
  | [] => { r with blocks := b :: r.blocks }
  | f :: outer => { r with frames := { f with blocks := ⟨start, stop, b⟩ :: f.blocks } :: outer }

/-- The page with a container opened at a position. -/
def push (r : Reading) (start : Nat) (container : Container) : Reading :=
  { r with frames := ⟨container, start, []⟩ :: r.frames }

/-- Whether a container is a tight list. -/
def isTightList : Container → Bool
  | .list _ _ tight => tight
  | _ => false

/-- The page with its innermost container closed at a position. A bare mark is forgotten with its tight
list. -/
def close (r : Reading) (stop : Nat) : Reading :=
  match r.frames with
  | [] => r
  | f :: outer =>
    let bare := if isTightList f.container then none else r.bare
    { r with frames := outer, bare }.add f.start stop (f.block r.containers stop)

/-- The page with its `n` innermost containers closed at a position. -/
def closeMany (r : Reading) (stop : Nat) : Nat → Reading
  | 0 => r
  | n + 1 => (r.close stop).closeMany stop n

/-! ## Lists -/

/-- The list made loose, if the container is one. -/
def loosen : Container → Container
  | .list mark start _ => .list mark start false
  | container => container

/-- An item that was opened by a bare mark and has no block before a blank line is closed. -/
def settleItem (r : Reading) : Reading :=
  let settled := { r with bare := none }
  match r.bare, r.blank, r.frames with
  | some stop, true, ⟨.item _, _, _⟩ :: _ => settled.close stop
  | _, _, _ => settled

/-- The blank line before a block makes the list around the block's item loose. -/
def settleBlank (r : Reading) : Reading :=
  if r.blank then
    let frames := match r.frames with
      | inner :: list :: outer => inner :: { list with container := loosen list.container } :: outer
      | frames => frames
    { r with frames, blank := false }
  else r

/-- Ends the list that is open innermost, before a block at a position that is no item of it. -/
def endList (r : Reading) (stop : Nat) : Reading :=
  let r := r.settleItem
  let r := match r.frames with
    | ⟨.list _ _ _, _, _⟩ :: _ => r.close stop
    | _ => r
  r.settleBlank

/-- Goes on with the open list if its items have the same mark, and starts a new list at a position
otherwise. -/
def list (r : Reading) (i : Nat) (mark : Char) (number : Option Nat) : Reading :=
  let r := r.settleItem
  let fresh := fun (_ : Unit) =>
    { (r.endList i).push i (.list mark number true) with blank := false }
  match r.frames with
  | ⟨.list m first tight, start, items⟩ :: outer =>
    if m == mark then
      { r with frames := ⟨.list m first (tight && !r.blank), start, items⟩ :: outer, blank := false }
    else fresh ()
  | _ => fresh ()

/-! ## Containers -/

/-- The page with a footnote opened at a position. An open footnote ends before the next one. -/
def footnote (r : Reading) (i : Nat) (label : Text) : Reading :=
  let r := r.endList i
  let r := match r.frames with
    | ⟨.footnote _, _, _⟩ :: _ => r.close i
    | _ => r
  let definitions :=
    { r.definitions with footnotes := labelKey label :: r.definitions.footnotes }
  { r.push i (.footnote label) with definitions }

/-- What is left of a line behind the marks of containers. -/
inductive Remainder where
  /-- Something at a cursor, with the position where its line starts. -/
  | content (line : Nat) (c : Cursor)
  /-- Nothing behind the mark of an item; the next line starts at a position. -/
  | nothing (next : Nat)

/-- Opens the containers whose marks stand at a cursor, on a line that starts at `line`. Behind the mark
of a footnote, a line starts anew. -/
def openAll (s : Source) (r : Reading) (line : Nat) (c : Cursor) : Reading × Remainder :=
  let (indent, inner) := c.columns s 4
  let i := inner.pos
  if 4 ≤ indent then (r, .content line c)
  else match footnoteLabel? s false i, itemMark? s indent inner with
  | some (label, stop), _ =>
    let start := s.skip isInnerBlank (stop + 1)
    if s.has ':' stop then
      if c.pos < s.stop ∧ c.pos < start then openAll s (r.footnote i label) start (.start start)
      else (r.footnote i label, .content start (.start start))
    else (r, .content line c)
  | none, some mark =>
    let r := (r.list (i - indent) mark.kind mark.number).push (i - indent) (.item mark.indent)
    match s.blankLine? mark.cursor.pos with
    | some next => ({ r with bare := some next }, .nothing next)
    | none =>
      if c.pos < s.stop ∧ c.pos < mark.cursor.pos then openAll s r line mark.cursor
      else (r, .content line mark.cursor)
  | none, none =>
    match quoteMark? s inner with
    | some behind =>
      let r := (r.endList line).push i .quote
      if c.pos < s.stop ∧ c.pos < behind.pos then openAll s r line behind
      else (r, .content line behind)
    | none => (r, .content line c)
  termination_by s.stop - c.pos
  decreasing_by
    · show s.stop - start < s.stop - c.pos
      omega
    all_goals omega

/-- The page behind a blank line. Blank lines of a quote do not count for the lists around it. After a
bare item mark, no line belongs to the item any more. -/
def blankLine (r : Reading) : Reading :=
  match r.frames with
  | [] => r
  | ⟨.quote, _, _⟩ :: _ => r
  | ⟨.item indent, start, blocks⟩ :: outer =>
    let indent := if r.bare.isSome then 0 else indent
    { r with frames := ⟨.item indent, start, blocks⟩ :: outer, blank := true }
  | _ => { r with blank := true }

/-! ## Blocks -/

/-- The position where the text goes on behind a definition, on the line at a position, unless the line
starts something else. -/
def textBehind? (s : Source) (containers : List Container) (i : Nat) : Option Nat :=
  let (resumed, c) := resume s (.start i) containers
  let (indent, c) := c.columns s 4
  if indent < 4 && interruptsParagraph s containers (resumed == containers.length) c.pos then none
  else some (c.content s)

/-- Reads the definitions at a position and then the paragraph behind them. -/
def text (s : Source) (r : Reading) (i : Nat) : Reading × Nat :=
  match definition? s r.containers i with
  | none =>
    let (block, next) := paragraph s r.containers i
    (r.add i next block, next)
  | some (label, destination, stop) =>
    let references := r.definitions.references ++ [(labelKey label, destination)]
    let r := { r with definitions := { r.definitions with references } }
    match s.blankLine? stop with
    | none => (r, stop)
    | some next =>
      match textBehind? s r.containers next with
      | some start => if i < s.stop ∧ i < start then text s r start else (r, next)
      | none => (r, next)
  termination_by s.stop - i

/-- Reads the block at a cursor, on a line that starts at `line`, and gives the position behind it. -/
def block (s : Source) (r : Reading) (line : Nat) (c : Cursor) : Reading × Nat :=
  let r := r.endList line
  let containers := r.containers
  let (indent, inner) := c.columns s 4
  let i := inner.pos
  let html := fun ending =>
    let read := htmlFrom s containers ending [] (max c.owed indent) i
    (r.add i read.stop (.html read.text), read.next)
  if 4 ≤ indent then
    let code := indentedFrom s containers [] ([], i) false inner.owed i
    ({ r.add i code.kept.stop (.code [] code.kept.text) with blank := code.blank }, code.kept.next)
  else if s.has '<' i && (blockEnd? s (i + 1)).isSome then html (blockEnd? s (i + 1))
  else if s.has '<' i && (startsBlockTag s (i + 1) || isTagLine s (i + 1)) then html none
  else match rule? s i, headingLevel? s i, fence? s i with
  | some next, _, _ => (r.add i next .rule, next)
  | none, some level, _ =>
    let (block, next) := heading s containers level i
    (r.add i next block, next)
  | none, none, some (mark, length) =>
    let (block, stop, next) := fencedCode s containers ⟨mark, length, indent⟩ i
    (r.add i stop block, next)
  | none, none, none => r.text s i

/-! ## Lines -/

/-- Reads from a line's start on until a block or a blank line has been read, and gives the position
behind it. -/
def line (s : Source) (r : Reading) (i : Nat) : Reading × Nat :=
  let (resumed, c) := resume s (.start i) r.containers
  let r := r.closeMany i (r.frames.length - resumed)
  match openAll s r i c with
  | (r, .nothing next) => (r, next)
  | (r, .content line c) =>
    match s.blankLine? c.pos with
    | some next => (r.blankLine, next)
    | none => r.block s line c

/-- Reads all lines from a position on, and gives the position behind them. -/
def lines (s : Source) (r : Reading) (i : Nat) : Reading × Nat :=
  if i < s.stop then
    let (read, next) := r.line s i
    if i < next then lines s read next else (read, next)
  else (r, i)
  termination_by s.stop - i

end Reading

/-- A page: its blocks and what it defines. -/
structure Page where
  blocks : List Block
  definitions : Definitions

/-- The page that a source spells. -/
def Source.page (s : Source) : Page :=
  let (r, stop) := Reading.empty.lines s 0
  let r := r.closeMany stop r.frames.length
  ⟨r.blocks.reverse, r.definitions⟩

end Literate.Markdown
