import Literate.FileSystem
import Literate.OrderedMap

/-!
# Disks

A disk is a tree of directories and files, held as a table of places. A place is the list of names
that leads to it from the root. A spelled path is followed part by part, from the root or from the
working directory: every part, even an empty one, needs a directory to start from, `..` leaves a
directory, and a name must be there. A name may not be longer than a directory can hold; that shows
where the name is looked for, so a fault earlier in the path comes first. A path as a whole may
neither be too long nor hold the character zero.

A new file or directory is made in the place that the last part of a path names, so there all parts
before the last must lead to a directory. Missing directories on the way to a new file are made from
the outside in.
-/

namespace Literate

/-- The names that lead to a file or directory, outermost first. -/
abbrev Place := List Text

/-- What a place holds. -/
inductive Node where
  | directory
  | file (bytes : ByteArray)
  deriving BEq

/-- Directories and files, and the directory that relative paths start from. -/
structure Disk where
  nodes : OrderedMap Place Node
  workingDirectory : Place

namespace Disk

/-- The disk with nothing but its root. -/
def empty : Disk := ⟨{}, []⟩

/-- What a place holds; the root is always a directory. -/
def node? (d : Disk) (place : Place) : Option Node :=
  if place.isEmpty then some .directory else d.nodes.get? place

/-- The disk with a node in a place. -/
def insert (d : Disk) (place : Place) (node : Node) : Disk :=
  { d with nodes := d.nodes.insert place node }

/-! ## Following paths -/

/-- Bytes that a name may have. -/
def nameLimit : Nat := 255

/-- Bytes that a path may have. -/
def pathLimit : Nat := 4095

/-- The name, if a directory can hold it. -/
def acceptName (name : Text) : Except Fault Text :=
  if nameLimit < name.byteSize then .error .nameTooLong else .ok name

/-- The parts of a path, if it can be asked for. -/
def partsOf (p : Path) : Except Fault (List Text) :=
  if p.spelling.contains '\x00' then .error .nulInName
  else if pathLimit < p.spelling.byteSize then .error .nameTooLong
  else .ok (p.spelling.splitOn '/')

/-- Goes on from a place by the parts of a path. -/
def follow (d : Disk) (place : Place) : List Text → Except Fault Place
  | [] => .ok place
  | part :: rest =>
    match d.node? place with
    | some .directory =>
      match Component.ofPart? part with
      | some (.name name) =>
        match acceptName name with
        | .error fault => .error fault
        | .ok name =>
          if (d.node? (place ++ [name])).isSome then d.follow (place ++ [name]) rest
          else .error .noSuchFile
      | some .up => d.follow place.dropLast rest
      | _ => d.follow place rest
    | some (.file _) => .error .notDirectory
    | none => .error .noSuchFile

/-- Where a path starts. -/
def origin (d : Disk) (p : Path) : Place :=
  if p.isAbsolute then [] else d.workingDirectory

/-- The place that a path leads to. The empty path leads nowhere. -/
def locate (d : Disk) (p : Path) : Except Fault Place := do
  let parts ← partsOf p
  if p.spelling.isEmpty then .error .noSuchFile else d.follow (d.origin p) parts

/-- What a path leads to. -/
def lookup? (d : Disk) (p : Path) : Option Node :=
  match d.locate p with
  | .ok place => d.node? place
  | .error _ => none

/-- Whether a path leads to a directory. -/
def isDirectory (d : Disk) (p : Path) : Bool :=
  d.lookup? p == some .directory

/-! ## Reading -/

/-- The text that bytes spell. -/
def decode (bytes : ByteArray) : Except Fault Text :=
  match String.fromUTF8? bytes with
  | some s => .ok s.toList
  | none => .error .notUtf8

/-- The bytes that spell a text. -/
def encode (t : Text) : ByteArray :=
  (String.ofList t).toUTF8

/-- Bytes spell a text exactly when they are the bytes that spell it, so no text has two
spellings. -/
theorem decode_eq_ok_iff {bytes : ByteArray} {t : Text} :
    decode bytes = .ok t ↔ bytes = encode t := by
  unfold decode encode
  constructor
  · intro h
    split at h
    · next s hs =>
      obtain rfl : s.toList = t := Except.ok.inj h
      unfold String.fromUTF8? at hs
      split at hs
      · obtain rfl := Option.some.inj hs
        simp [String.fromUTF8]
      · exact nomatch hs
    · exact nomatch h
  · rintro rfl
    have hv : (String.ofList t).toUTF8.IsValidUTF8 := (String.ofList t).isValidUTF8
    have hs : String.fromUTF8? (String.ofList t).toUTF8 = some (String.ofList t) := by
      unfold String.fromUTF8?
      rw [dif_pos hv]
      rfl
    rw [hs]
    simp

/-- The text of the file that a path leads to. -/
def read (d : Disk) (p : Path) : Except Fault Text := do
  let place ← d.locate p
  match d.node? place with
  | some (.file bytes) => decode bytes
  | some .directory => .error .isDirectory
  | none => .error .noSuchFile

/-! ## Writing -/

/-- The last part of a path that is not empty, with the parts before it, and whether slashes follow
it. -/
structure Target where
  before : List Text
  last : Text
  slashed : Bool

/-- How the parts of a path name something new; slashes alone name nothing. -/
def target? (parts : List Text) : Option Target :=
  let kept := (parts.reverse.dropWhile List.isEmpty).reverse
  kept.getLast?.map fun last => ⟨kept.dropLast, last, kept.length < parts.length⟩

/-- The directory that the parts before the last lead to. -/
def directoryOf (d : Disk) (p : Path) (t : Target) : Except Fault Place :=
  d.follow (d.origin p) (t.before ++ [[]])

/-- Makes one directory. -/
def makeDirectory (d : Disk) (p : Path) : Except Fault Disk := do
  match target? (← partsOf p) with
  | none => .error .fileExists
  | some t =>
    let place ← d.directoryOf p t
    match Component.ofPart? t.last with
    | some (.name name) =>
      let name ← acceptName name
      if (d.node? (place ++ [name])).isSome then .error .fileExists
      else .ok (d.insert (place ++ [name]) .directory)
    | _ => .error .fileExists

/-- Makes one directory, unless it is there. -/
def ensureDirectory (d : Disk) (p : Path) : Except Fault Disk :=
  match d.makeDirectory p with
  | .ok d => .ok d
  | .error fault => if d.isDirectory p then .ok d else .error fault

/-- Makes the first of the given directories, and the ones behind it where they are missing. Each
directory stands in the next. -/
def makeDirectories (d : Disk) : List Path → Except Fault Disk
  | [] => .ok d
  | p :: outer =>
    if p.spelling.isEmpty then .ok d
    else match d.makeDirectory p with
      | .error .noSuchFile => do (← d.makeDirectories outer).ensureDirectory p
      | _ => d.ensureDirectory p

/-- Empties the file that a path names, or makes it. -/
def openFile (d : Disk) (p : Path) : Except Fault Disk := do
  match target? (← partsOf p) with
  | none => .error .isDirectory
  | some t =>
    let place ← d.directoryOf p t
    match Component.ofPart? t.last with
    | some (.name name) =>
      if t.slashed then .error .isDirectory
      let name ← acceptName name
      if d.node? (place ++ [name]) == some .directory then .error .isDirectory
      else .ok (d.insert (place ++ [name]) (.file .empty))
    | _ => .error .isDirectory

/-- Empties a file or makes it, with the directories it stands in. -/
def create (d : Disk) (p : Path) : Except Fault Disk := do
  (← d.makeDirectories (p.ancestors.drop 1)).openFile p

/-- Appends bytes to a file. -/
def append (d : Disk) (p : Path) (bytes : ByteArray) : Except Fault Disk := do
  let place ← d.locate p
  match d.node? place with
  | some (.file before) => .ok (d.insert place (.file (before ++ bytes)))
  | some .directory => .error .isDirectory
  | none => .error .noSuchFile

/-- A disk as a file system. -/
def fileSystem : FileSystem Disk where
  read := read
  create := create
  append d p block := d.append p (encode block)

/-! ## Listing -/

/-- The files with their places. -/
def files (d : Disk) : List (Place × ByteArray) :=
  d.nodes.entries.filterMap fun (place, node) =>
    match node with
    | .file bytes => some (place, bytes)
    | .directory => none

/-- The files that are new or differ from those of a disk before. -/
def changedSince (d before : Disk) : List (Place × ByteArray) :=
  d.files.filter fun file => before.node? file.1 != some (.file file.2)

/-- The spelling of a place as an absolute path. -/
def pathOf (place : Place) : Path :=
  ⟨'/' :: Text.join ['/'] place⟩

end Disk

end Literate
