import Literate.Document.Basic
import Literate.Link

/-!
# Scanning documents

A scanner goes through documents line by line. Its own state says where it is, whether a chunk is
open and which section it stands in, and depends on the lines alone; what the lines mean is recorded
in the document set. One scanner serves a whole run, so that section numbers go on from chapter to
chapter.

The documents of a run are the root and, for a book, the chapters that links outside the chunks of
the root lead to. Links in chapters are not followed, so the list of documents is complete as soon
as the root is read.
-/

namespace Literate

/-- Where a scan stands. -/
structure Scanner where
  file : Path
  /-- The lines of the file read so far. -/
  lineNumber : Nat
  inChunk : Bool
  /-- The chunk that was opened last. -/
  chunkName : ChunkName
  /-- The section of the last heading. -/
  current : Section
  /-- Whether links outside chunks name further documents. -/
  followLinks : Bool

namespace Scanner

/-- Before the first line of a document. -/
def start (file : Path) : Scanner := ⟨file, 0, false, ⟨[]⟩, .root file, false⟩

/-- Goes on to another document; the section stays the same. -/
def startFile (s : Scanner) (file : Path) (followLinks : Bool) : Scanner :=
  { s with file, lineNumber := 0, inChunk := false, current := s.current.movedTo file, followLinks }

/-- The line read last. -/
def location (s : Scanner) : Location := ⟨s.file, s.lineNumber⟩

/-- The role of the next line. -/
def kind (s : Scanner) (line : Text) : LineKind :=
  Line.kind line s.inChunk

/-- The scanner behind the next line. -/
def next (s : Scanner) (line : Text) : Scanner :=
  let s' := { s with lineNumber := s.lineNumber + 1 }
  match s.kind line with
  | .heading _ _ => { s' with current := (s.current.next? line).getD s.current }
  | .chunkOpen name => { s' with inChunk := true, chunkName := name }
  | .chunkClose => { s' with inChunk := false }
  | _ => s'

end Scanner

namespace Document

/-- The documents that the links on a line name. -/
def linkedFrom (file : Path) (line : Text) : List Path :=
  ((Link.ofLine line).filter fun l => !l.isExternal).map fun l => Path.resolveLink file l.path

/-- Puts the documents that a line names on the list. -/
def scheduleLinks (d : Document) (s : Scanner) (line : Text) : Document :=
  if !s.inChunk && s.followLinks then (linkedFrom s.file line).foldl schedule d else d

/-- Records the section that a line starts: a heading's own, and that of a document's first line. -/
def recordSections (d : Document) (s : Scanner) (line : Text) : Document :=
  let s' := s.next line
  let d := match s.kind line with
    | .heading _ _ => d.recordSection s'.location s'.current
    | _ => d
  if s'.lineNumber = 1 then d.recordOpening s'.file s'.current else d

/-- Records what a line does to chunks. -/
def recordChunk (d : Document) (s : Scanner) (line : Text) : Document :=
  let s' := s.next line
  match s.kind line with
  | .chunkClose => d.recordEnd s'.location ⟨s.chunkName, s'.current⟩
  | .code | .reference _ =>
    { d with chunks := ChunkTable.addLine d.chunks s.chunkName ⟨s'.location, line⟩ }
  | .chunkOpen name =>
    let d := if name.text.isEmpty then d.warn s'.location .unnamedChunk else d
    let d := { d with chunks := ChunkTable.addDefinition d.chunks name ⟨s'.location, s'.current⟩ }
    d.recordStart s'.location name
  | .heading _ _ | .prose => d

/-- The document set behind the scanner's next line. -/
def record (d : Document) (s : Scanner) (line : Text) : Document :=
  (((d.scheduleLinks s line).recordSections s line).recordChunk s line).appendLine s.file line

end Document

namespace Scanner

/-- One line further. -/
def step (state : Scanner × Document) (line : Text) : Scanner × Document :=
  (state.1.next line, state.2.record state.1 line)

/-- All lines of a document. A chunk still open at its end is worth a warning. -/
def readContent (s : Scanner) (d : Document) (content : Text) : Scanner × Document :=
  let (s, d) := content.lines.foldl step (s, d)
  (s, if s.inChunk then d.warn s.location .unclosedChunk else d)

end Scanner

/-- What came of a scan. -/
structure Scan where
  scanner : Scanner
  document : Document
  /-- The documents that were begun, in order. -/
  started : List Path
  /-- What ended the scan early. -/
  failure : Option Error

namespace Scan

/-- One document further, unless the scan has ended. -/
def file (read : Path → Except Fault Text) (followLinks : Bool) (scan : Scan) (path : Path) :
    Scan :=
  if scan.failure.isSome then scan
  else
    let scanner := scan.scanner.startFile path followLinks
    let scan := { scan with scanner, started := scan.started ++ [path] }
    match read path with
    | .error fault => { scan with failure := some (.read path fault) }
    | .ok content =>
      let (scanner, document) := scanner.readContent scan.document content
      { scan with
        scanner, document
        failure :=
          if scanner.inChunk then some (.unclosedChunk scanner.location scanner.chunkName)
          else none }

/-- Scans a root document and, for a book, the chapters it links to. -/
def run (read : Path → Except Fault Text) (root : Path) (book : Bool) : Scan :=
  let root := root.normalize
  let first := file read book ⟨.start root, Document.empty.schedule root, [], none⟩ root
  (first.document.inputs.drop 1).foldl (file read false) first

/-- The documents that a run reads, given the content of its root. -/
def inputsOf (root : Path) (content : Text) (book : Bool) : List Path :=
  let root := root.normalize
  let scanner := (Scanner.start root).startFile root book
  (scanner.readContent (Document.empty.schedule root) content).2.inputs

end Scan

end Literate
