import Literate.Error
import Literate.Path.Lexical

/-!
# The document set of a run

A scan fills a document set: the chunks of all documents, the lines of each document as they were
read, and where in each document chunks open, chunks close and sections start. After the scan it is
only read.
-/

namespace Literate

/-- What a closing fence ends: the chunk, and the section it stands in. -/
structure ChunkEnd where
  name : ChunkName
  within : Section

/-- All that a scan finds. -/
structure Document where
  /-- The chunks of all documents. -/
  chunks : ChunkTable
  /-- The lines of each document, every one with a line feed. -/
  markdown : OrderedMap Path Text
  /-- The lines where a fence opens a chunk. -/
  chunkStarts : OrderedMap Path (LineMap ChunkName)
  /-- The lines where a fence closes a chunk. -/
  chunkEnds : OrderedMap Path (LineMap ChunkEnd)
  /-- The lines where a section starts. -/
  sectionStarts : OrderedMap Path (LineMap Section)
  /-- What was odd, in the order in which it was read. -/
  warnings : List Warning
  /-- The documents in the order in which they were found, the root first. -/
  inputs : List Path
  /-- The page of each document. -/
  outputs : OrderedMap Path Path

namespace Document

/-- The document set before anything was read. -/
def empty : Document := ⟨{}, {}, {}, {}, {}, [], [], {}⟩

/-- The document that the others are found from. -/
def root? (d : Document) : Option Path :=
  d.inputs.head?

/-- Puts a document on the list, unless it is there already. -/
def schedule (d : Document) (path : Path) : Document :=
  { d with inputs := addNew d.inputs path }

/-- Adds a warning. -/
def warn (d : Document) (location : Location) (kind : WarningKind) : Document :=
  { d with warnings := d.warnings ++ [⟨location, kind⟩] }

/-- Records that a section starts at a line. -/
def recordSection (d : Document) (l : Location) (s : Section) : Document :=
  { d with sectionStarts := d.sectionStarts.alter l.file fun m => (m.getD []).insert l.line s }

/-- Records the section that a document starts in, unless its first line opened one. -/
def recordOpening (d : Document) (file : Path) (s : Section) : Document :=
  { d with sectionStarts := d.sectionStarts.alter file fun m =>
      let m := m.getD []
      if (m.get? 1).isSome then m else m.insert 1 s }

/-- Records that a chunk opens at a line. -/
def recordStart (d : Document) (l : Location) (name : ChunkName) : Document :=
  { d with chunkStarts := d.chunkStarts.alter l.file fun m => (m.getD []).insert l.line name }

/-- Records that a chunk closes at a line. -/
def recordEnd (d : Document) (l : Location) (e : ChunkEnd) : Document :=
  { d with chunkEnds := d.chunkEnds.alter l.file fun m => (m.getD []).insert l.line e }

/-- Appends a line to the lines kept of a document. -/
def appendLine (d : Document) (file : Path) (line : Text) : Document :=
  { d with markdown := d.markdown.alter file fun buffer => buffer.getD [] ++ (line ++ ['\n']) }

/-- Gives every document its page below a directory. -/
def assignOutputs (d : Document) (outDir : Path) : Document :=
  let rootDir := (d.root?.map Path.parent).getD .empty
  let outputs := d.inputs.foldl (fun m input => m.insert input (.outputName input rootDir outDir)) {}
  { d with outputs }

/-- The page of a document. -/
def outputFor? (d : Document) (input : Path) : Option Path :=
  d.outputs.get? input

/-- The lattice of all chunks. -/
def lattice (d : Document) : Lattice :=
  Lattice.ofTable d.chunks

end Document

end Literate
