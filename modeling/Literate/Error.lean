import Literate.Lattice.Validation

/-!
# Failures

Errors are causes; the words for them are in one place each. A fault is what a file system answers,
an error is what a run answers. Warnings do not stop a run by themselves.
-/

namespace Literate

/-- Why a file could not be read or written. -/
inductive Fault where
  | noSuchFile
  | notDirectory
  | isDirectory
  | fileExists
  | nameTooLong
  | nulInName
  | notUtf8
  | notStored (path : Path)
  | refused
  | full
  | other (text : String)

namespace Fault

/-- The fault in words. -/
def message : Fault → String
  | .noSuchFile => "No such file or directory (os error 2)"
  | .notDirectory => "Not a directory (os error 20)"
  | .isDirectory => "Is a directory (os error 21)"
  | .fileExists => "File exists (os error 17)"
  | .nameTooLong => "File name too long (os error 36)"
  | .nulInName => "file name contained an unexpected NUL byte"
  | .notUtf8 => "stream did not contain valid UTF-8"
  | .notStored path => "File not found: " ++ toString path
  | .refused => "create refused"
  | .full => "disk full"
  | .other text => text

end Fault

/-- What can be odd about a document without being wrong. -/
inductive WarningKind where
  | unnamedChunk
  | unclosedChunk
  deriving DecidableEq

namespace WarningKind

/-- The warning in words. -/
def message : WarningKind → String
  | .unnamedChunk => "Chunk has no name"
  | .unclosedChunk => "Content finished but chunk not closed"

end WarningKind

/-- A warning about a line. -/
structure Warning where
  location : Location
  kind : WarningKind

namespace Warning

/-- The warning in words, with its place. -/
def message (w : Warning) : String :=
  toString w.location ++ ": " ++ w.kind.message

end Warning

/-- Why a run failed. -/
inductive Error where
  /-- A file could not be opened or written. -/
  | io (fault : Fault)
  /-- A document could not be read. -/
  | read (path : Path) (fault : Fault)
  /-- The settings file is not well formed. -/
  | settings (file : Path)
  /-- A document ended inside a chunk. -/
  | unclosedChunk (location : Location) (name : ChunkName)
  /-- The lattice is not fit for tangling. -/
  | invalid (problems : List Problem)
  /-- The chunk to tangle is not in the lattice. -/
  | unknownChunk (name : ChunkName)
  /-- A document has no page assigned. -/
  | noOutput (input : Path)

namespace Error

/-- The error in words. -/
def message : Error → String
  | .io fault => "I/O error: " ++ fault.message
  | .read path fault => "cannot read " ++ toString path ++ ": " ++ fault.message
  | .settings file => "TOML parse error: " ++ toString file
  | .unclosedChunk location name =>
    toString location ++ ": file ended while still in chunk '" ++ toString name ++ "'"
  | .invalid problems => "\n".intercalate (problems.map Problem.message)
  | .unknownChunk name => "Unknown chunk: " ++ toString name
  | .noOutput input => "No output assigned for " ++ toString input

end Error

end Literate
