import Literate.Markdown.Reading

/-!
# Pages in HTML

A page is written block by block. A block starts on a new line; inside a tight list the text of an
item stands directly in the item. Footnotes are numbered in the order in which they are met.

A run takes the writer of pages as a parameter, and what is proved of runs holds for every writer.
About this one, and about the reading that it rests on, nothing is proved.
-/

namespace Literate.Markdown

/-- The reference that stands for a character in text. -/
def escapeText (t : Text) : Text :=
  t.flatMap fun c =>
    match c with
    | '&' => "&amp;".toList
    | '<' => "&lt;".toList
    | '>' => "&gt;".toList
    | c => [c]

/-- The text of an attribute, in which quotes are escaped too. -/
def escapeAttribute (t : Text) : Text :=
  (escapeText t).flatMap fun c =>
    match c with
    | '"' => "&quot;".toList
    | '\'' => "&#39;".toList
    | c => [c]

/-- The characters that stand for themselves in an address. -/
def isAddressChar (c : Char) : Bool :=
  c.isAlphanum || "!#$%()*+,-./:;=?@^_~".toList.contains c

/-- A digit of a byte in hexadecimal. -/
def hexDigit (n : Nat) : Char :=
  "0123456789ABCDEF".toList.getD n '0'

/-- A byte behind a percent sign. -/
def percentByte (b : UInt8) : Text :=
  ['%', hexDigit (b.toNat / 16), hexDigit (b.toNat % 16)]

/-- An address as the value of an attribute: other characters are written as the bytes of their
UTF-8 form. -/
def escapeAddress (t : Text) : Text :=
  t.flatMap fun c =>
    if isAddressChar c then [c]
    else match c with
      | '&' => "&amp;".toList
      | '\'' => "&#x27;".toList
      | c => (String.singleton c).toUTF8.toList.flatMap percentByte

/-- A page being written: its pieces, the last one first, whether it ends with a line, and the
footnotes met so far. -/
structure Writer where
  pieces : List Text
  atLineStart : Bool
  footnotes : List Text

namespace Writer

/-- Before anything is written. -/
def empty : Writer := ⟨[], true, []⟩

/-- The text written so far. -/
def text (w : Writer) : Text :=
  w.pieces.reverse.flatten

/-- Writes a text. -/
def put (w : Writer) (t : Text) : Writer :=
  match t.getLast? with
  | some c => { w with pieces := t :: w.pieces, atLineStart := c == '\n' }
  | none => w

/-- Writes a string. -/
def tag (w : Writer) (s : String) : Writer :=
  w.put s.toList

/-- Starts a new line, unless the page is at one. -/
def freshLine (w : Writer) : Writer :=
  if w.atLineStart then w else w.tag "\n"

/-- The page with a footnote numbered, and its number. -/
def number (w : Writer) (label : Text) : Writer × Text :=
  let labels := if w.footnotes.contains label then w.footnotes else w.footnotes ++ [label]
  ({ w with footnotes := labels }, Text.ofNat (labels.idxOf label + 1))

end Writer

/-- The attribute for a title, if there is one. -/
def titleAttribute (title : Text) : Text :=
  if title.isEmpty then [] else "\" title=\"".toList ++ escapeAttribute title

/-- How a block between the lines of a tight list item is written: as it is, and as plain text. -/
structure Embedded where
  rich : Writer → Writer
  plain : Writer → Writer

mutual

/-- Writes an inline node as plain text, for the description of an image. -/
def writePlain (blocks : Array Embedded) (w : Writer) : Inline → Writer
  | .text t => w.put (escapeAttribute t)
  | .code t => w.put (escapeAttribute t)
  | .html t => w.put (escapeAttribute t)
  | .softBreak => w.tag " "
  | .hardBreak => w.tag " "
  | .emphasis body => writePlains blocks w body
  | .strong body => writePlains blocks w body
  | .strike body => writePlains blocks w body
  | .link _ body => writePlains blocks w body
  | .image _ body => writePlains blocks w body
  | .footnote label =>
    let (w, n) := w.number label
    ((w.tag "[").put n).tag "]"
  | .block n =>
    match blocks[n]? with
    | some b => b.plain w
    | none => w

/-- Writes inline nodes as plain text. -/
def writePlains (blocks : Array Embedded) (w : Writer) : List Inline → Writer
  | [] => w
  | i :: rest => writePlains blocks (writePlain blocks w i) rest

end

mutual

/-- Writes an inline node. -/
def writeInline (blocks : Array Embedded) (w : Writer) : Inline → Writer
  | .text t => w.put (escapeText t)
  | .code t => ((w.tag "<code>").put (escapeText t)).tag "</code>"
  | .html t => w.put t
  | .softBreak => w.tag "\n"
  | .hardBreak => w.tag "<br />\n"
  | .emphasis body => (writeInlines blocks (w.tag "<em>") body).tag "</em>"
  | .strong body => (writeInlines blocks (w.tag "<strong>") body).tag "</strong>"
  | .strike body => (writeInlines blocks (w.tag "<del>") body).tag "</del>"
  | .link destination body =>
    let w := (w.tag "<a href=\"").put (escapeAddress destination.target)
    let w := (w.put (titleAttribute destination.title)).tag "\">"
    (writeInlines blocks w body).tag "</a>"
  | .image destination body =>
    let w := ((w.tag "<img src=\"").put (escapeAddress destination.target)).tag "\" alt=\""
    ((writePlains blocks w body).put (titleAttribute destination.title)).tag "\" />"
  | .footnote label =>
    let w := ((w.tag "<sup class=\"footnote-reference\"><a href=\"#").put (escapeAttribute label))
    let (w, n) := (w.tag "\">").number label
    (w.put n).tag "</a></sup>"
  | .block n =>
    match blocks[n]? with
    | some b => b.rich w
    | none => w

/-- Writes inline nodes. -/
def writeInlines (blocks : Array Embedded) (w : Writer) : List Inline → Writer
  | [] => w
  | i :: rest => writeInlines blocks (writeInline blocks w i) rest

end

/-- The style that sets the cells of a column. -/
def cellStyle : Alignment → String
  | .none => ">"
  | .left => " style=\"text-align: left\">"
  | .center => " style=\"text-align: center\">"
  | .right => " style=\"text-align: right\">"

/-- What is needed to read the text of blocks. -/
structure Sheet where
  source : Source
  definitions : Definitions

/-- The inline nodes of a text. -/
def Sheet.inlines (sheet : Sheet) (leaf : Leaf) : List Inline :=
  leaf.inlines sheet.source sheet.definitions

/-- Writes the text of a block. -/
def Sheet.text (sheet : Sheet) (w : Writer) (leaf : Leaf) : Writer :=
  writeInlines #[] w (sheet.inlines leaf)

/-- Writes the text of a block as plain text. -/
def Sheet.plainText (sheet : Sheet) (w : Writer) (leaf : Leaf) : Writer :=
  writePlains #[] w (sheet.inlines leaf)

/-- Writes the cells of a row. -/
def Sheet.cells (sheet : Sheet) (cell : String) (w : Writer) : List (Alignment × Leaf) → Writer
  | [] => w
  | (alignment, leaf) :: rest =>
    let w := ((w.tag "<").tag cell).tag (cellStyle alignment)
    sheet.cells cell (((sheet.text w leaf).tag "</").tag cell |>.tag ">") rest

/-- Writes the rows of a table. -/
def Sheet.rows (sheet : Sheet) (columns : List Alignment) (w : Writer) : List (List Leaf) → Writer
  | [] => w
  | row :: rest =>
    sheet.rows columns ((sheet.cells "td" (w.tag "<tr>") (columns.zip row)).tag "</tr>\n") rest

/-- The class of a code block, from the first word of its info text. -/
def codeTag (info : Text) : Text :=
  let language := info.takeWhile (· != ' ')
  if language.isEmpty then "<pre><code>".toList
  else "<pre><code class=\"language-".toList ++ escapeAttribute language ++ "\">".toList

/-- The tag that opens a list. -/
def listTag : Option Nat → Text
  | none => "<ul>\n".toList
  | some 1 => "<ol>\n".toList
  | some n => "<ol start=\"".toList ++ Text.ofNat n ++ "\">\n".toList

/-- The tag that closes a list. -/
def listEndTag : Option Nat → String
  | none => "</ul>\n"
  | some _ => "</ol>\n"

mutual

/-- Writes a block. -/
def Sheet.block (sheet : Sheet) : Block → Writer → Writer
  | .heading level text, w =>
    let h := 'h' :: Text.ofNat level ++ ">".toList
    let w := sheet.text (w.freshLine.put ('<' :: h)) text
    w.put ("</".toList ++ h ++ "\n".toList)
  | .paragraph text, w => (sheet.text (w.freshLine.tag "<p>") text).tag "</p>\n"
  | .code info text, w =>
    ((w.freshLine.put (codeTag info)).put (escapeText text)).tag "</code></pre>\n"
  | .html text, w => w.put text
  | .rule, w => w.freshLine.tag "<hr />\n"
  | .quote body, w =>
    (sheet.blocks body (w.freshLine.tag "<blockquote>\n")).tag "</blockquote>\n"
  | .list start tight items, w =>
    (sheet.items tight items (w.freshLine.put (listTag start))).tag (listEndTag start)
  | .item _ body, w => (sheet.blocks body (w.freshLine.tag "<li>")).tag "</li>\n"
  | .table columns head rows, w =>
    let w := sheet.cells "th" (w.tag "<table><thead><tr>") (columns.zip head)
    (sheet.rows columns (w.tag "</tr></thead><tbody>\n") rows).tag "</tbody></table>\n"
  | .footnote label body, w =>
    let w := (w.freshLine.tag "<div class=\"footnote-definition\" id=\"").put (escapeAttribute label)
    let (w, n) := (w.tag "\"><sup class=\"footnote-definition-label\">").number label
    (sheet.blocks body ((w.put n).tag "</sup>")).tag "</div>\n"

/-- Writes blocks. -/
def Sheet.blocks (sheet : Sheet) : List Block → Writer → Writer
  | [], w => w
  | b :: rest, w => sheet.blocks rest (sheet.block b w)

/-- Writes the items of a list. In a tight list the text of an item stands directly in the item. -/
def Sheet.items (sheet : Sheet) (tight : Bool) : List Block → Writer → Writer
  | [], w => w
  | .item content body :: rest, w =>
    let w := w.freshLine.tag "<li>"
    let w :=
      if tight then writeInlines (sheet.embedded body).toArray w (sheet.inlines content)
      else sheet.blocks body w
    sheet.items tight rest (w.tag "</li>\n")
  | b :: rest, w => sheet.items tight rest (sheet.block b w)

/-- How the blocks of a tight list item are written. -/
def Sheet.embedded (sheet : Sheet) : List Block → List Embedded
  | [] => []
  | b :: rest => ⟨sheet.block b, sheet.plain b⟩ :: sheet.embedded rest

/-- Writes a block as plain text. -/
def Sheet.plain (sheet : Sheet) : Block → Writer → Writer
  | .heading _ text, w => sheet.plainText w text
  | .paragraph text, w => sheet.plainText w text
  | .code _ text, w => w.put (escapeAttribute text)
  | .html _, w => w
  | .rule, w => w.tag " "
  | .quote body, w => sheet.plains body w
  | .list _ tight items, w => sheet.plainItems tight items w
  | .item _ body, w => sheet.plains body w
  | .table _ head rows, w => (head :: rows).flatten.foldl sheet.plainText w
  | .footnote _ body, w => sheet.plains body w

/-- Writes blocks as plain text. -/
def Sheet.plains (sheet : Sheet) : List Block → Writer → Writer
  | [], w => w
  | b :: rest, w => sheet.plains rest (sheet.plain b w)

/-- Writes the items of a list as plain text. -/
def Sheet.plainItems (sheet : Sheet) (tight : Bool) : List Block → Writer → Writer
  | [], w => w
  | .item content body :: rest, w =>
    let w :=
      if tight then writePlains (sheet.embedded body).toArray w (sheet.inlines content)
      else sheet.plains body w
    sheet.plainItems tight rest w
  | b :: rest, w => sheet.plainItems tight rest (sheet.plain b w)

end

/-- The page of a text in HTML. -/
def toHtml (t : Text) : Text :=
  let source := Source.ofText t
  let page := source.page
  (Sheet.blocks ⟨source, page.definitions⟩ page.blocks .empty).text

end Literate.Markdown
