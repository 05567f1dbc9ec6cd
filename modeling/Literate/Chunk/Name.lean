import Literate.Text.Blank

/-!
# Chunk names

A chunk name is the text after an opening fence, without the blanks around it. A chunk that no other
chunk refers to is written to a file of its name, so such a name has to look like a file name; the
letters it ends in name the language of the file.
-/

namespace Literate

/-- The name of a chunk. -/
structure ChunkName where
  text : Text
  deriving DecidableEq

namespace ChunkName

/-- The name spelled by a string. -/
def ofString (s : String) : ChunkName :=
  ⟨s.toList⟩

instance : ToString ChunkName := ⟨fun n => String.ofList n.text⟩

/-- Whether the name ends in a dot and at least one further character, none of them blank. -/
def isFilename (n : ChunkName) : Bool :=
  (Text.takeWhileEnd (fun c => !isBlank c) n.text).dropLast.contains '.'

/-- The characters of a language tag: ASCII letters and digits, `-` and `_`. -/
def isTagChar (c : Char) : Bool :=
  c == '-' || c == '_' || c.isAlphanum

/-- The tag characters that the name ends in, if there are any. -/
def languageTag (n : ChunkName) : Option Text :=
  let tag := Text.takeWhileEnd isTagChar n.text
  if tag.isEmpty then none else some tag

end ChunkName

end Literate
