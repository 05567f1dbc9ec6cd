import Literate.Chunk.Name

/-!
# Lines of a document

A line plays one role, which depends on whether a chunk is open. Outside a chunk a line is a fence
that opens a chunk, a heading, or prose. Inside, it is the closing fence, a reference to another
chunk, or code.
-/

namespace Literate

/-- The mark that opens a chunk, and that closes one when it is the whole line. -/
def fence : Text := ['`', '`', '`']

/-- The mark that begins a reference, after the indentation. -/
def referenceMark : Text := ['@', '{']

/-- A reference line: the blanks before its mark, and the chunk it stands for. -/
structure Reference where
  indent : Text
  name : ChunkName
  deriving DecidableEq

/-- The role of a line. -/
inductive LineKind where
  | heading (level : Nat) (text : Text)
  | chunkOpen (name : ChunkName)
  | chunkClose
  | reference (ref : Reference)
  | code
  | prose
  deriving DecidableEq

namespace Line

/-- A heading: number signs at the start of the line, at least one ASCII blank, and the text. The
level is the number of signs. -/
def heading? (line : Text) : Option (Nat × Text) :=
  let signs := line.takeWhile (· == '#')
  let gap := (line.dropWhile (· == '#')).takeWhile isAsciiBlank
  if signs.isEmpty || gap.isEmpty then none
  else some (signs.length, (line.dropWhile (· == '#')).dropWhile isAsciiBlank)

/-- The name behind an opening fence. It may be empty. -/
def fenceOpen? (line : Text) : Option ChunkName :=
  (Text.after? fence line).map fun rest => ⟨rest.trim⟩

/-- The name in the body of a reference, which is what follows its mark: the body ends in a brace,
up to blanks, and the name before the brace is not empty. -/
def referenceName? (body : Text) : Option ChunkName :=
  let body := body.trimEnd
  if body.getLast? = some '}' then
    let name := Text.trim body.dropLast
    if name.isEmpty then none else some ⟨name⟩
  else none

/-- A reference line: indentation, the mark, and the name in braces. Other text on the line makes it
plain code. -/
def reference? (line : Text) : Option Reference :=
  (Text.after? referenceMark line.trimStart).bind fun body =>
    (referenceName? body).map fun name => ⟨line.indent, name⟩

/-- The run of backticks a line starts with. -/
def backticks (line : Text) : Text :=
  line.takeWhile (· == '`')

/-- The role of a line, given whether a chunk is open. -/
def kind (line : Text) (inChunk : Bool) : LineKind :=
  if inChunk then
    if line = fence then .chunkClose
    else match reference? line with
      | some ref => .reference ref
      | none => .code
  else match fenceOpen? line with
    | some name => .chunkOpen name
    | none =>
      match heading? line with
      | some (level, text) => .heading level text
      | none => .prose

end Line

end Literate
