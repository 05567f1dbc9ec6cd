import Literate.Document.Basic

/-!
# Cross-references

Behind every closing fence a page says where else the chunk is continued and which sections use it.
Sections appear as links to their anchors, as far as the pages are known.
-/

namespace Literate.Document

/-- The path from the page of one document to the page of another. -/
def pageLink (source target : Path) : Text :=
  (Path.relativeTo source.parent target).toLink

/-- A section as a link from the page of `current`; only its label when a page is not known. -/
def sectionLink (d : Document) (current : Path) (s : Section) : Text :=
  match d.outputFor? current, d.outputFor? s.file with
  | some source, some target =>
    '[' :: s.label ++ "](".toList ++ pageLink source target ++ '#' :: s.anchor ++ [')']
  | _, _ => s.label

/-- Items in an English sentence: `section X`, `sections X and Y`, `sections X, Y and Z`. -/
def inEnglish (links : List Text) : Text :=
  match links.getLast? with
  | none => []
  | some last =>
    if links.length = 1 then "section ".toList ++ last
    else "sections ".toList ++ Text.join ", ".toList links.dropLast ++ " and ".toList ++ last

/-- The list without its first item equal to `s`. -/
def eraseFirst (s : Section) : List Section → List Section
  | [] => []
  | t :: rest => if t == s then rest else t :: eraseFirst s rest

/-- The sections of the other definitions of the chunk that closes. -/
def addedTo (d : Document) (e : ChunkEnd) : List Section :=
  match d.chunks.get? e.name with
  | none => []
  | some chunk => eraseFirst e.within (chunk.definitions.map Definition.within)

/-- The sections in which a chunk refers to `name`, one for each reference. -/
def usesIn (chunk : Chunk) (name : ChunkName) : List Section :=
  (chunk.lines.filter fun l => l.reference?.map Reference.name == some name).map fun l =>
    ((chunk.definitionBefore? l.location).map Definition.within).getD (.root .empty)

/-- The sections that use the chunk that closes, in the order of their numbers. -/
def usedIn (d : Document) (l : Lattice) (e : ChunkEnd) : List Section :=
  sortBy Section.compare <| (l.parents e.name).flatMap fun parent =>
    match d.chunks.get? parent with
    | none => []
    | some chunk => usesIn chunk e.name

/-- A paragraph that lists sections, or nothing when there are none. -/
def paragraph (d : Document) (current : Path) (intro : Text) (sections : List Section) : Text :=
  if sections.isEmpty then []
  else '\n' :: intro ++ ' ' :: inEnglish (sections.map (d.sectionLink current)) ++ ".\n\n".toList

/-- The paragraph about the other definitions of the chunk that closes. -/
def addedToText (d : Document) (current : Path) (e : ChunkEnd) : Text :=
  d.paragraph current "Added to in".toList (d.addedTo e)

/-- The paragraph about the uses of the chunk that closes. -/
def usedInText (d : Document) (l : Lattice) (current : Path) (e : ChunkEnd) : Text :=
  d.paragraph current "Used in".toList (d.usedIn l e)

end Literate.Document
