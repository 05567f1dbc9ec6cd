import Literate.Lattice.Search

/-!
# Checking a lattice

A lattice is fit for tangling when every root is named like a file, no chunk leads back to itself,
and every name is defined. Each way to fail is one problem, and all of them are reported together.
-/

namespace Literate

/-- What can be wrong with a lattice. -/
inductive Problem where
  | nonFilenameRoots (names : List ChunkName)
  | cycle (names : List ChunkName)
  | undefined (names : List ChunkName)
  deriving DecidableEq

namespace Problem

/-- Names as they are listed in a message. -/
def listed (names : List ChunkName) : String :=
  ", ".intercalate (names.map toString)

/-- The problem in words. -/
def message : Problem → String
  | .nonFilenameRoots [name] => "Found top level chunk which isn't a filename: " ++ toString name
  | .nonFilenameRoots names => "Found top level chunks which aren't filenames: " ++ listed names
  | .cycle names => "Found cyclic chunks: " ++ " -> ".intercalate (names.map toString)
  | .undefined names =>
    (if 2 ≤ names.length then "Chunks not defined: " else "Chunk not defined: ") ++ listed names

end Problem

namespace Lattice

/-- A problem about names, unless there are none. -/
def problemOf (problem : List ChunkName → Problem) (names : List ChunkName) : Option Problem :=
  if names.isEmpty then none else some (problem names)

/-- Every root is written to a file, so its name has to look like one. -/
def checkRoots (l : Lattice) : Option Problem :=
  problemOf .nonFilenameRoots (l.roots.filter fun name => !name.isFilename)

/-- No chunk may lead back to itself. -/
def checkAcyclic (l : Lattice) : Option Problem :=
  l.findCycle?.map .cycle

/-- Every name has to be defined. -/
def checkDefined (l : Lattice) (table : ChunkTable) : Option Problem :=
  problemOf .undefined (l.names.filter fun name => !table.contains name)

/-- Everything that is wrong with a lattice over a table. -/
def problems (l : Lattice) (table : ChunkTable) : List Problem :=
  [l.checkRoots, l.checkAcyclic, l.checkDefined table].filterMap id

end Lattice

end Literate
