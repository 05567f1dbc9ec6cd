import Literate.Document.Scan
import Literate.Page.CrossReference

/-!
# Annotated pages

The lines kept of a document are gone through once more to make its page. Headings get their number
and an anchor; a document that does not begin with a heading gets an anchor before its first line; a
fence that opens a chunk gets the chunk's name above it and the language of the file that the chunk
ends up in; a fence that closes one is followed by the cross-references; and links to other
documents lead to their pages.
-/

namespace Literate.Document

/-- A heading with the number and the anchor of its section. -/
def numberedHeading? (line : Text) (s : Section) : Option Text :=
  (Line.heading? line).map fun (level, text) =>
    List.replicate level '#' ++ " <a name=\"".toList ++ s.anchor ++ "\"></a>".toList ++ s.label
      ++ ' ' :: text

/-- An anchor on a line of its own. -/
def anchorLine (s : Section) : Text :=
  "<a name=\"".toList ++ s.anchor ++ "\"></a>\n".toList

/-- The fence with the language of the file at the top of the chunk. -/
def taggedFence (l : Lattice) (line : Text) (name : ChunkName) : Text :=
  Line.backticks line ++ ((l.topOf name).languageTag.getD [])

/-- The link's new path, when it leads to a document that has a page. -/
def newPath? (d : Document) (file source : Path) (link : Link) : Option Text :=
  if link.isExternal then none
  else (d.outputFor? (Path.resolveLink file link.path)).map (pageLink source)

/-- The line with its links leading to pages. -/
def retargetLinks (d : Document) (file : Path) (line : Text) : Text :=
  match d.outputFor? file with
  | none => line
  | some source => Link.retarget (d.newPath? file source) line

/-- What is noted about a line of a document. -/
structure LineNotes where
  chunkStart : Option ChunkName
  sectionStart : Option Section
  chunkEnd : Option ChunkEnd

/-- What is noted about line `n` of a document. -/
def notes (d : Document) (file : Path) (n : Nat) : LineNotes where
  chunkStart := (d.chunkStarts.get? file).bind (LineMap.get? n)
  sectionStart := (d.sectionStarts.get? file).bind (LineMap.get? n)
  chunkEnd := (d.chunkEnds.get? file).bind (LineMap.get? n)

/-- Whether a chunk is open behind a line. -/
def inChunkAfter (inChunk : Bool) (notes : LineNotes) : Bool :=
  notes.chunkEnd.isNone && (inChunk || notes.chunkStart.isSome)

/-- The line with its links leading to pages, except in chunks and on the fences that open them. -/
def linkedLine (d : Document) (file : Path) (inChunk : Bool) (notes : LineNotes) (line : Text) :
    Text :=
  if inChunk || notes.chunkStart.isSome then line else d.retargetLinks file line

/-- What a section start puts before a line, and the line that follows. -/
def withAnchor (inChunk : Bool) (notes : LineNotes) (line : Text) : Text × Text :=
  match notes.sectionStart with
  | none => ([], line)
  | some s =>
    match numberedHeading? line s with
    | some heading =>
      if !inChunk && notes.chunkStart.isNone then ([], heading) else (anchorLine s, line)
    | none => (anchorLine s, line)

/-- The annotated form of one line. -/
def annotateLine (d : Document) (l : Lattice) (marker : Text) (file : Path) (inChunk : Bool)
    (notes : LineNotes) (line : Text) : Text :=
  let (anchor, text) := withAnchor inChunk notes (d.linkedLine file inChunk notes line)
  let body := match notes.chunkStart with
    | some name => marker ++ name.text ++ "\n\n".toList ++ taggedFence l line name
    | none => text
  let crossReferences := match notes.chunkEnd with
    | some e => d.addedToText file e ++ d.usedInText l file e
    | none => []
  anchor ++ body ++ '\n' :: crossReferences

/-- The annotated form of the lines from line `n` on. -/
def annotateFrom (d : Document) (l : Lattice) (marker : Text) (file : Path) :
    Nat → Bool → List Text → Text
  | _, _, [] => []
  | n, inChunk, line :: rest =>
    let notes := d.notes file n
    d.annotateLine l marker file inChunk notes line
      ++ d.annotateFrom l marker file (n + 1) (inChunkAfter inChunk notes) rest

/-- The annotated page of a document; empty for a document that was never read. -/
def annotate (d : Document) (l : Lattice) (marker : Text) (file : Path) : Text :=
  match d.markdown.get? file with
  | none => []
  | some markdown => d.annotateFrom l marker file 1 false markdown.lines

end Literate.Document
