import Literate.Markdown.Table

/-!
# Blocks

A page is a tree of blocks. This module reads the blocks that hold no other blocks, from the line on
which they start: headings, paragraphs, tables, code and raw HTML. Each of them goes on as long as the
lines below resume the containers around it; only a paragraph takes lines that do not, unless they
start something else.
-/

namespace Literate.Markdown

/-- A block of a page. The text of headings, paragraphs and cells is still to be read. -/
inductive Block where
  | heading (level : Nat) (text : Leaf)
  | paragraph (text : Leaf)
  | code (info : Text) (text : Text)
  | html (text : Text)
  | rule
  | quote (body : List Block)
  | list (start : Option Nat) (tight : Bool) (items : List Block)
  /-- A list item: what it holds in a tight list, where its lines and the blocks between them make one
  text, and its blocks. -/
  | item (content : Leaf) (body : List Block)
  | table (columns : List Alignment) (head : List Leaf) (rows : List (List Leaf))
  | footnote (label : Text) (body : List Block)

/-! ## What ends a paragraph -/

/-- Whether an item mark ends a paragraph. Inside the paragraph's own containers, only a bullet or the
number one does, and only if something stands behind it on its line. -/
def itemInterrupts (s : Source) (inside inTable : Bool) (i : Nat) : Bool :=
  match itemStart? s i with
  | some (number, stop) =>
    !inside || inTable || (number.getD 1 == 1 && (s.blankLine? stop).isNone)
  | none => false

/-- Whether a footnote starts at a position. -/
def startsFootnote (s : Source) (inTable : Bool) (i : Nat) : Bool :=
  match footnoteLabel? s inTable i with
  | some (_, stop) => s.has ':' stop
  | none => false

/-- Whether what stands at a position ends the paragraph or the table before it. -/
def interrupts (s : Source) (inside inTable : Bool) (i : Nat) : Bool :=
  s.atLineEnd i || (rule? s i).isSome || (headingLevel? s i).isSome || (fence? s i).isSome
    || s.has '>' i || itemInterrupts s inside inTable i
    || (s.has '<' i && ((blockEnd? s (i + 1)).isSome || startsBlockTag s (i + 1)))
    || startsFootnote s inTable i

/-- Whether what stands at a position ends a paragraph. A table does if its head starts with a bar. -/
def interruptsParagraph (s : Source) (containers : List Container) (inside : Bool) (i : Nat) : Bool :=
  interrupts s inside false i || (s.has '|' i && (table? s containers i).isSome)

/-! ## Headings and paragraphs -/

/-- The position where the text of a heading ends, between the text's start and the next line. Blanks
and number signs at the end are dropped; the signs only behind a blank. -/
def headingEnd (s : Source) (start next : Nat) : Nat :=
  let stop := max start (s.back (fun c => c == '\n' || c == '\r' || c == ' ') next)
  let signs := max start (s.back (· == '#') stop)
  let blanks := max start (s.back (· == ' ') signs)
  if signs = start then start else if blanks < signs then blanks else stop

/-- The items with another end for the last of them. -/
def endLast (stop : Nat) : List Item → List Item
  | [] => []
  | [item] => [{ item with stop }]
  | item :: rest => item :: endLast stop rest

/-- A backslash at the end of a line that is the last one is text. -/
def lastBreak : Option Item → List Item
  | some ⟨start, _, .hardBreak true⟩ => [⟨start, start + 1, .text⟩]
  | _ => []

/-- The heading of a level at a position, and the position behind it. -/
def heading (s : Source) (containers : List Container) (level i : Nat) : Block × Nat :=
  match s.lineEnd? (i + level) with
  | some next => (.heading level ⟨[], next, containers, false⟩, next)
  | none =>
    let start := s.skip isInnerBlank (i + level)
    let line := readLine s start
    let items := line.items ++ lastBreak line.lineBreak
    let items := endLast (headingEnd s start line.next) items
    (.heading level ⟨items, line.next, containers, false⟩, line.next)

/-- How the line below the line of a paragraph goes on with it. -/
inductive Continuation where
  /-- The paragraph goes on at a position. -/
  | text (i : Nat)
  /-- The paragraph is a heading of a level, underlined up to a position. -/
  | underline (level stop : Nat)
  /-- The paragraph has ended. -/
  | none

/-- How the line at a position goes on with the paragraph before it. -/
def continuation (s : Source) (containers : List Container) (i : Nat) : Continuation :=
  let (resumed, c) := resume s (.start i) containers
  let inside := resumed == containers.length
  let (indent, c) := c.columns s 4
  let content := c.content s
  let goesOn : Continuation := if s.atLineEnd content then .none else .text content
  if indent < 4 then
    match if inside then underline? s c.pos else Option.none with
    | some (level, stop) => .underline level stop
    | Option.none => if interruptsParagraph s containers inside c.pos then .none else goesOn
  else goesOn

/-- The rest of a paragraph, behind the items read so far with the last one first, and the position
behind it. -/
def paragraphFrom (s : Source) (containers : List Container) (items : List Item) (i : Nat) :
    Block × Nat :=
  let line := readLine s i
  let items := line.items.reverse ++ items
  let leaf := fun stop : Nat =>
    (⟨(lastBreak line.lineBreak ++ items).reverse, stop, containers, false⟩ : Leaf)
  match continuation s containers line.next with
  | .none => (.paragraph (leaf line.next), line.next)
  | .underline level stop => (.heading level (leaf stop), stop)
  | .text next =>
    if i < s.stop ∧ i < next then paragraphFrom s containers (line.lineBreak.toList ++ items) next
    else (.paragraph (leaf line.next), line.next)
  termination_by s.stop - i

/-! ## Tables -/

/-- The rows of a table from a position on, behind those read so far with the last one first, and the
position behind them. A row without cells does not belong to the table. -/
def rowsFrom (s : Source) (containers : List Container) (n : Nat) (rows : List (List Leaf)) (i : Nat) :
    List (List Leaf) × Nat :=
  let (resumed, c) := resume s (.start i) containers
  let start := c.content s
  if resumed < containers.length || interrupts s true true start then (rows.reverse, i)
  else
    let (cells, next) := rowFrom s containers [] start
    if cells.isEmpty then (rows.reverse, i)
    else
      let rows := fitRow containers n cells :: rows
      if i < s.stop ∧ i < next then rowsFrom s containers n rows next else (rows.reverse, next)
  termination_by s.stop - i

/-- The paragraph or the table at a position, and the position behind it. A line that ends in a hard
break by a backslash is no head of a table. -/
def paragraph (s : Source) (containers : List Container) (i : Nat) : Block × Nat :=
  let lineStop := s.skip (fun c => c != '\n' && c != '\r') i
  match if s.oddSlashes lineStop then none else table? s containers i with
  | some (columns, body) =>
    let head := fitRow containers columns.length (rowFrom s containers [] i).1
    let (rows, next) := rowsFrom s containers columns.length [] body
    (.table columns head rows, next)
  | none => paragraphFrom s containers [] i

/-! ## Code and raw HTML -/

/-- A line of code or raw HTML between two positions, behind columns that are owed. A carriage return
before its last byte is dropped. -/
def rawLine (s : Source) (owed start stop : Nat) : Text :=
  let text :=
    if start + 2 ≤ stop && s.has '\r' (stop - 2) && s.test (·.utf8Size == 1) (stop - 1) then
      s.slice start (stop - 2) ++ s.slice (stop - 1) stop
    else s.slice start stop
  List.replicate owed ' ' ++ text

/-- A fence and its indentation. -/
structure Fence where
  mark : Char
  length : Nat
  indent : Nat

/-- What has been read of code or raw HTML: its lines, the last one first, the position behind them,
and the position where reading goes on. -/
structure RawLines where
  lines : List Text
  stop : Nat
  next : Nat

/-- The text of the lines. -/
def RawLines.text (r : RawLines) : Text :=
  r.lines.reverse.flatten

/-- The lines of fenced code from a line on, behind the lines read so far with the last one first. The
closing fence is set in by less than four columns, whatever the indentation of the first one. -/
def fencedFrom (s : Source) (containers : List Container) (f : Fence) (lines : List Text) (i : Nat) :
    RawLines :=
  let (resumed, c) := resume s (.start i) containers
  if resumed < containers.length then ⟨lines, i, i⟩
  else
    let (indent, mark) := c.columns s 4
    match if indent < 4 then closingFence? s f.mark f.length mark.pos else none with
    | some stop => ⟨lines, stop, (s.blankLine? stop).getD stop⟩
    | none =>
      let (_, c) := c.columns s f.indent
      let next := s.nextLine c.pos
      let lines := rawLine s c.owed c.pos next :: lines
      if i < s.stop ∧ i < next then fencedFrom s containers f lines next else ⟨lines, next, next⟩
  termination_by s.stop - i

/-- The code block whose fence is at a position, the position behind it, and the position where reading
goes on. -/
def fencedCode (s : Source) (containers : List Container) (f : Fence) (i : Nat) :
    Block × Nat × Nat :=
  let start := s.skip isInnerBlank (i + f.length)
  let next := s.nextLine start
  let info := s.slice start (max start (s.back isSourceBlank next))
  let read := fencedFrom s containers f [] next
  (.code (unescape false info) read.text, read.stop, read.next)

/-- What has been read of indented code: the lines up to the last one that is not blank, and whether
the last line read is blank. -/
structure IndentedCode where
  kept : RawLines
  blank : Bool

/-- The lines of indented code from a line's content on; `all` are the lines read so far, the last one
first, and `kept` those of them that are sure to stay, with the position behind them. -/
def indentedFrom (s : Source) (containers : List Container) (all : List Text)
    (kept : List Text × Nat) (blank : Bool) (owed i : Nat) : IndentedCode :=
  let next := s.nextLine i
  let all := rawLine s owed i next :: all
  let kept := if blank then kept else (all, next)
  let ended : IndentedCode := ⟨⟨kept.1, kept.2, next⟩, blank⟩
  let (resumed, c) := resume s (.start next) containers
  let (indent, c) := c.columns s 4
  if resumed < containers.length || (indent < 4 && !s.atLineEnd c.pos) || s.stop ≤ c.pos then ended
  else if i < s.stop ∧ i < c.pos then
    indentedFrom s containers all kept (s.blankLine? c.pos).isSome c.owed c.pos
  else ended
  termination_by s.stop - i

/-- The lines of raw HTML from a line's content on, behind those read so far with the last one first.
They go on up to a line that holds the text `ending`, or, if there is none, up to a blank line. -/
def htmlFrom (s : Source) (containers : List Container) (ending : Option Text) (lines : List Text)
    (owed i : Nat) : RawLines :=
  let next := s.nextLine i
  let lines := rawLine s owed i next :: lines
  let (resumed, c) := resume s (.start next) containers
  let holdsEnd := match ending with
    | some text => text.occurs (s.slice i next)
    | none => false
  if resumed < containers.length || holdsEnd then ⟨lines, next, next⟩
  else if s.stop ≤ c.pos || (ending.isNone && (s.blankLine? c.pos).isSome) then
    ⟨lines, c.pos, next⟩
  else if i < s.stop ∧ i < c.pos then htmlFrom s containers ending lines c.owed c.pos
  else ⟨lines, next, next⟩
  termination_by s.stop - i

end Literate.Markdown
