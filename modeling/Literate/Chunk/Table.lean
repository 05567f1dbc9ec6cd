import Literate.OrderedMap
import Literate.Section

/-!
# Chunks

A chunk is all that is written under one name: the places where a fence opens it, each with the
section it stands in, and the lines between the fences, in the order in which they were read. The
table keeps the chunks in the order in which their names first appear.
-/

namespace Literate

/-- A line of a document. -/
structure Location where
  file : Path
  line : Nat
  deriving BEq

instance : ToString Location := ⟨fun l => toString l.file ++ ":" ++ toString l.line⟩

/-- A fence that opens a chunk. -/
structure Definition where
  location : Location
  within : Section
  deriving BEq

/-- A line of a chunk, as written in its document. -/
structure ChunkLine where
  location : Location
  text : Text
  deriving BEq

/-- The reference on a line, if the line is one. -/
def ChunkLine.reference? (l : ChunkLine) : Option Reference :=
  Line.reference? l.text

/-- All that is written under one name. -/
structure Chunk where
  definitions : List Definition
  lines : List ChunkLine

namespace Chunk

/-- The chunk with nothing in it. -/
def empty : Chunk := ⟨[], []⟩

/-- The names that the chunk refers to, line by line. -/
def references (c : Chunk) : List ChunkName :=
  c.lines.filterMap fun l => l.reference?.map Reference.name

/-- The last definition in the same document that opens before a location. -/
def definitionBefore? (c : Chunk) (place : Location) : Option Definition :=
  (c.definitions.filter fun d => d.location.file == place.file && d.location.line < place.line).getLast?

end Chunk

/-- Every chunk by its name. -/
abbrev ChunkTable := OrderedMap ChunkName Chunk

namespace ChunkTable

/-- The table with a chunk under the name, empty if it was not there. -/
def touch (t : ChunkTable) (name : ChunkName) : ChunkTable :=
  t.alter name fun c => c.getD .empty

/-- The table with one definition more under the name. -/
def addDefinition (t : ChunkTable) (name : ChunkName) (d : Definition) : ChunkTable :=
  t.alter name fun c =>
    let c := c.getD .empty
    { c with definitions := c.definitions ++ [d] }

/-- The table with one line more under the name. -/
def addLine (t : ChunkTable) (name : ChunkName) (l : ChunkLine) : ChunkTable :=
  t.alter name fun c =>
    let c := c.getD .empty
    { c with lines := c.lines ++ [l] }

/-- The table in which exactly the given names are defined. -/
def ofNames (names : List ChunkName) : ChunkTable :=
  names.foldl touch {}

end ChunkTable

end Literate
