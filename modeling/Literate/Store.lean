import Literate.FileSystem
import Literate.OrderedMap

/-!
# Files in memory

A store holds files by path. It can be made to refuse certain paths and to limit the size of every
file, which is how failing writes are studied.
-/

namespace Literate

/-- Files in memory. -/
structure Store where
  files : OrderedMap Path Text

/-- What goes wrong with the writes to a store. -/
structure StoreFaults where
  /-- Paths that cannot be opened for writing. -/
  refused : List Path
  /-- The bytes that every file can hold. -/
  limit : Option Nat

/-- Nothing goes wrong. -/
def StoreFaults.none : StoreFaults := ⟨[], Option.none⟩

namespace Store

/-- The store without files. -/
def empty : Store := ⟨{}⟩

/-- The store with a file under a path, in place of what was there. -/
def add (s : Store) (path : Path) (text : Text) : Store :=
  ⟨s.files.insert path text⟩

/-- The store with the given files added in order. -/
def ofList (files : List (Path × Text)) : Store :=
  files.foldl (fun s file => s.add file.1 file.2) empty

/-- The text of a file. -/
def contents? (s : Store) (path : Path) : Option Text :=
  s.files.get? path

/-- The text of a file, or the fault that it is not there. -/
def read (s : Store) (path : Path) : Except Fault Text :=
  match s.contents? path with
  | some text => .ok text
  | none => .error (.notStored path)

/-- The files in the order of their paths. -/
def list (s : Store) : List (Path × Text) :=
  sortBy (fun a b => Path.compare a.1 b.1) s.files.entries

/-- Empties or creates a file. -/
def create (faults : StoreFaults) (s : Store) (path : Path) : Except Fault Store :=
  if faults.refused.contains path then .error .refused else .ok (s.add path [])

/-- Appends a block to a file, unless that makes the file too large. -/
def append (faults : StoreFaults) (s : Store) (path : Path) (block : Text) : Except Fault Store :=
  let text := (s.contents? path).getD [] ++ block
  match faults.limit with
  | some limit => if limit < text.byteSize then .error .full else .ok (s.add path text)
  | none => .ok (s.add path text)

/-- A store as a file system. -/
def fileSystem (faults : StoreFaults) : FileSystem Store where
  read := read
  create := create faults
  append := append faults

/-- The files of a store that are new or differ from those before. -/
def changedSince (s before : Store) : List (Path × Text) :=
  s.list.filter fun file => before.contents? file.1 != some file.2

end Store

end Literate
