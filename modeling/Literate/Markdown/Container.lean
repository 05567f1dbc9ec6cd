import Literate.Markdown.Mark

/-!
# Containers

Quotes, list items and footnotes hold other blocks. Each line shows by its marks and its indentation
which of the open containers it belongs to: the line is read from the outermost container inwards,
until one of them is not resumed.
-/

namespace Literate.Markdown

/-- A block that holds other blocks. -/
inductive Container where
  | quote
  /-- A list with the mark of its items, the number of the first, and whether it is tight. -/
  | list (mark : Char) (start : Option Nat) (tight : Bool)
  /-- A list item with the width of the indentation that its lines have. -/
  | item (indent : Nat)
  | footnote (label : Text)

/-- The indentation of the lines of a footnote. -/
def footnoteIndent : Nat := 4

/-- The cursor behind the mark of a quote, with one blank. -/
def quoteMark? (s : Source) (c : Cursor) : Option Cursor :=
  if s.has '>' c.pos then some ({ c with pos := c.pos + 1 }.columns s 1).2 else none

/-- The cursor behind indentation, which may be short at the end of a line. -/
def indented? (s : Source) (c : Cursor) (n : Nat) : Option Cursor :=
  let (taken, c) := c.columns s n
  if taken = n || s.atLineEnd c.pos then some c else none

/-- The cursor behind what resumes a container on a line. -/
def Container.resume? (s : Source) (c : Cursor) : Container → Option Cursor
  | .quote => quoteMark? s (c.columns s 3).2
  | .list _ _ _ => some c
  | .item indent => indented? s c indent
  | .footnote _ => indented? s c footnoteIndent

/-- The number of containers that a line resumes, and the cursor behind their marks. -/
def resume (s : Source) (c : Cursor) : List Container → Nat × Cursor
  | [] => (0, c)
  | container :: inner =>
    match container.resume? s c with
    | some c =>
      let (n, c) := resume s c inner
      (n + 1, c)
    | none => (0, c)

/-- The position behind the marks of containers at the start of a line. -/
def behindMarks (s : Source) (containers : List Container) (i : Nat) : Nat :=
  (resume s (.start i) containers).2.pos

/-- The mark of a list item. -/
structure ItemMark where
  /-- The character that the items of one list have in common. -/
  kind : Char
  /-- The number of an ordered item. -/
  number : Option Nat
  /-- The indentation of the item's lines. -/
  indent : Nat
  /-- The place behind the mark. -/
  cursor : Cursor

/-- The item mark that ends at a position, if a blank or the end of the line follows it. What follows
up to three more columns of blanks sets the item's indentation. -/
def itemMarkTo? (s : Source) (c : Cursor) (kind : Char) (number : Option Nat) (indent stop : Nat) :
    Option ItemMark :=
  let (gap, behind) := { c with pos := stop }.columns s 1
  if gap = 1 || s.atLineEnd behind.pos then
    let width := indent + (stop - c.pos) + 1
    let (more, content) := behind.columns s 4
    if (s.blankLine? behind.pos).isSome || 4 ≤ more then some ⟨kind, number, width, behind⟩
    else some ⟨kind, number, width + more, content⟩
  else none

/-- The mark of a list item at a cursor behind `indent` columns. -/
def itemMark? (s : Source) (indent : Nat) (c : Cursor) : Option ItemMark :=
  match s.get? c.pos with
  | some kind =>
    if isBullet kind then
      if (rule? s c.pos).isSome then none else itemMarkTo? s c kind none indent (c.pos + 1)
    else
      let (number, stop) := decimalAt s c.pos
      match s.get? stop with
      | some kind =>
        if c.pos < stop && stop ≤ c.pos + mostDigits && (kind == '.' || kind == ')') then
          itemMarkTo? s c kind (some number) indent (stop + 1)
        else none
      | none => none
  | none => none

end Literate.Markdown
