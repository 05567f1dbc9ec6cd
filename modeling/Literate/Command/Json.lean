import Literate.Build.Report

/-!
# Reports as JSON

A report is written as JSON with one item to a line and two blanks for every level.
-/

namespace Literate

/-- A JSON value. Reports hold no other kinds. -/
inductive JsonValue where
  | number (n : Nat)
  | string (t : Text)
  | array (items : List JsonValue)
  | object (fields : List (String × JsonValue))

namespace JsonValue

/-- A digit in hexadecimal. -/
def hexDigit (n : Nat) : Char :=
  "0123456789abcdef".toList.getD n '0'

/-- How a character is written in a string. -/
def escape (c : Char) : Text :=
  match c with
  | '"' => ['\\', '"']
  | '\\' => ['\\', '\\']
  | '\n' => ['\\', 'n']
  | '\r' => ['\\', 'r']
  | '\t' => ['\\', 't']
  | '\x08' => ['\\', 'b']
  | '\x0c' => ['\\', 'f']
  | c =>
    if c.toNat < 0x20 then "\\u00".toList ++ [hexDigit (c.toNat / 16), hexDigit (c.toNat % 16)]
    else [c]

/-- A text as a string. -/
def quoted (t : Text) : Text :=
  '"' :: t.flatMap escape ++ ['"']

/-- The start of a line on a level. -/
def newLine (level : Nat) : Text :=
  '\n' :: List.replicate (2 * level) ' '

mutual

/-- Writes a value that stands on a level. -/
def write (level : Nat) : JsonValue → Text
  | .number n => Text.ofNat n
  | .string t => quoted t
  | .array [] => ['[', ']']
  | .array (item :: items) =>
    '[' :: newLine (level + 1) ++ write (level + 1) item ++ writeItems (level + 1) items
      ++ newLine level ++ [']']
  | .object [] => ['\x7b', '\x7d']
  | .object ((key, value) :: fields) =>
    '\x7b' :: newLine (level + 1) ++ quoted key.toList ++ [':', ' '] ++ write (level + 1) value
      ++ writeFields (level + 1) fields ++ newLine level ++ ['\x7d']

/-- Writes the items behind the first one. -/
def writeItems (level : Nat) : List JsonValue → Text
  | [] => []
  | item :: items => ',' :: newLine level ++ write level item ++ writeItems level items

/-- Writes the fields behind the first one. -/
def writeFields (level : Nat) : List (String × JsonValue) → Text
  | [] => []
  | (key, value) :: fields =>
    ',' :: newLine level ++ quoted key.toList ++ [':', ' '] ++ write level value
      ++ writeFields level fields

end

/-- A path as a string. -/
def ofPath (p : Path) : JsonValue :=
  .string p.spelling

/-- A chunk name as a string. -/
def ofName (n : ChunkName) : JsonValue :=
  .string n.text

/-- A warning with its place. -/
def ofWarning (w : Warning) : JsonValue :=
  let kind := match w.kind with
    | .unnamedChunk => "UnnamedChunk"
    | .unclosedChunk => "UnclosedChunk"
  .object [
    ("location", .object [("filename", ofPath w.location.file), ("line", .number w.location.line)]),
    ("kind", .string kind.toList)]

end JsonValue

namespace Report

/-- The report as a JSON value. -/
def toJson (r : Report) : JsonValue :=
  .object [
    ("inputs", .array (r.inputs.map JsonValue.ofPath)),
    ("chunks", .number r.chunks),
    ("roots", .array (r.roots.map JsonValue.ofName)),
    ("warnings", .array (r.warnings.map JsonValue.ofWarning)),
    ("tangled", .array (r.tangled.map JsonValue.ofName)),
    ("woven", .array (r.woven.map JsonValue.ofPath))]

end Report

end Literate
