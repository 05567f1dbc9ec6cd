import Literate.Settings.Basic

/-!
# The settings file

A settings file is a list of lines `key = value`, with comments behind a number sign. Keys are bare
or quoted; values are `true`, `false` or strings. Strings are basic (with escapes) or literal, on
one line or between triple quotes. Four keys are known, each at most once and with one type;
everything else is refused.
-/

namespace Literate.SettingsFile

/-- A value of a settings file. -/
inductive Value where
  | flag (b : Bool)
  | text (t : Text)

/-- Control characters, which may not stand in comments and strings; the tab may. -/
def isControl (c : Char) : Bool :=
  (c.toNat < 0x20 && c != '\t') || c.toNat == 0x7F

/-- Blanks within a line. -/
def isGap (c : Char) : Bool :=
  c == ' ' || c == '\t'

/-- The text behind the blanks and line ends that it starts with. A carriage return is part of a line
end only before a line feed. -/
def afterGaps : Text → Text
  | ' ' :: rest => afterGaps rest
  | '\t' :: rest => afterGaps rest
  | '\n' :: rest => afterGaps rest
  | '\r' :: '\n' :: rest => afterGaps rest
  | t => t

/-- The characters of a bare key. -/
def isKeyChar (c : Char) : Bool :=
  c.isAlphanum || c == '_' || c == '-'

/-- The text behind a line end; the end of the text counts as one. -/
def newline? : Text → Option Text
  | [] => some []
  | '\n' :: rest => some rest
  | '\r' :: '\n' :: rest => some rest
  | _ => none

/-- The text behind the blanks, the comment and the line end that may follow a value. -/
def lineEnd? (t : Text) : Option Text :=
  match t.dropWhile isGap with
  | '#' :: rest => newline? (rest.dropWhile fun c => !isControl c)
  | rest => newline? rest

/-- The value of a hexadecimal digit. -/
def hexDigit? (c : Char) : Option Nat :=
  if c.isDigit then some (c.toNat - '0'.toNat)
  else if 'a' ≤ c ∧ c ≤ 'f' then some (c.toNat - 'a'.toNat + 10)
  else if 'A' ≤ c ∧ c ≤ 'F' then some (c.toNat - 'A'.toNat + 10)
  else none

/-- The character with a hexadecimal number. -/
def charOfHex? (digits : Text) : Option Char :=
  (digits.mapM hexDigit?).bind fun values =>
    let n := values.foldl (fun n d => n * 16 + d) 0
    if n.isValidChar then some (Char.ofNat n) else none

/-- The character that a short escape stands for. -/
def escaped? : Char → Option Char
  | 'b' => some '\x08'
  | 't' => some '\t'
  | 'n' => some '\n'
  | 'f' => some '\x0c'
  | 'r' => some '\r'
  | '"' => some '"'
  | '\\' => some '\\'
  | _ => none

/-- The character of an escape and the text behind it, from behind the backslash. -/
def escape? : Text → Option (Char × Text)
  | 'u' :: rest =>
    if rest.length < 4 then none else (charOfHex? (rest.take 4)).map (·, rest.drop 4)
  | 'U' :: rest =>
    if rest.length < 8 then none else (charOfHex? (rest.take 8)).map (·, rest.drop 8)
  | c :: rest => (escaped? c).map (·, rest)
  | [] => none

/-- A text with one character more in front. -/
def consTo (c : Char) (r : Text × Text) : Text × Text :=
  (c :: r.1, r.2)

/-- The rest of a basic string on one line, and the text behind its quote. The number bounds the
characters that may still be read. -/
def basic? : Nat → Text → Option (Text × Text)
  | 0, _ => none
  | _ + 1, [] => none
  | _ + 1, '"' :: rest => some ([], rest)
  | n + 1, '\\' :: rest => (escape? rest).bind fun (c, rest) => (basic? n rest).map (consTo c)
  | n + 1, c :: rest => if isControl c then none else (basic? n rest).map (consTo c)

/-- The quotes that stand directly before a closing triple quote belong to the string, at most two
of them. -/
def closingQuotes (quote : Char) (rest : Text) : Text × Text :=
  let extra := (rest.takeWhile (· == quote)).take 2
  (extra, rest.drop extra.length)

/-- The text behind a line end that opens a string between triple quotes. -/
def afterOpening : Text → Text
  | '\n' :: rest => rest
  | '\r' :: '\n' :: rest => rest
  | t => t

/-- The rest of a basic string between triple quotes, and the text behind it. A backslash before a
line end skips the blanks and line ends that follow. -/
def longBasic? : Nat → Text → Option (Text × Text)
  | 0, _ => none
  | _ + 1, [] => none
  | _ + 1, '"' :: '"' :: '"' :: rest => some (closingQuotes '"' rest)
  | n + 1, '\r' :: '\n' :: rest => (longBasic? n rest).map (consTo '\n')
  | n + 1, '\n' :: rest => (longBasic? n rest).map (consTo '\n')
  | n + 1, '\\' :: rest =>
    match rest.dropWhile isGap with
    | '\n' :: rest' => longBasic? n (afterGaps rest')
    | '\r' :: '\n' :: rest' => longBasic? n (afterGaps rest')
    | _ => (escape? rest).bind fun (c, rest) => (longBasic? n rest).map (consTo c)
  | n + 1, c :: rest => if isControl c then none else (longBasic? n rest).map (consTo c)

/-- The rest of a literal string on one line, and the text behind its quote. -/
def literal? : Text → Option (Text × Text)
  | [] => none
  | '\'' :: rest => some ([], rest)
  | c :: rest => if isControl c then none else (literal? rest).map (consTo c)

/-- The rest of a literal string between triple quotes, and the text behind it. -/
def longLiteral? : Text → Option (Text × Text)
  | [] => none
  | '\'' :: '\'' :: '\'' :: rest => some (closingQuotes '\'' rest)
  | '\r' :: '\n' :: rest => (longLiteral? rest).map (consTo '\n')
  | '\n' :: rest => (longLiteral? rest).map (consTo '\n')
  | c :: rest => if isControl c then none else (longLiteral? rest).map (consTo c)

/-- A key, and the text behind it. -/
def key? : Text → Option (Text × Text)
  | '"' :: rest => basic? rest.length rest
  | '\'' :: rest => literal? rest
  | t =>
    let key := t.takeWhile isKeyChar
    if key.isEmpty then none else some (key, t.dropWhile isKeyChar)

/-- A string, and the text behind it. -/
def string? : Text → Option (Text × Text)
  | '"' :: '"' :: '"' :: rest => longBasic? (rest.length + 1) (afterOpening rest)
  | '\'' :: '\'' :: '\'' :: rest => longLiteral? (afterOpening rest)
  | '"' :: rest => basic? (rest.length + 1) rest
  | '\'' :: rest => literal? rest
  | _ => none

/-- A value, and the text behind it. -/
def value? (t : Text) : Option (Value × Text) :=
  match Text.after? "true".toList t with
  | some rest => some (.flag true, rest)
  | none =>
    match Text.after? "false".toList t with
    | some rest => some (.flag false, rest)
    | none => (string? t).map fun (s, rest) => (.text s, rest)

/-- A key with its value, and the text behind the line. -/
def entry? (t : Text) : Option ((Text × Value) × Text) := do
  let (key, rest) ← key? t
  let rest ← Text.after? ['='] (rest.dropWhile isGap)
  let (value, rest) ← value? (rest.dropWhile isGap)
  let rest ← lineEnd? rest
  some ((key, value), rest)

/-- The entries of a text, line by line. -/
def entries? (t : Text) : Option (List (Text × Value)) :=
  let line := t.dropWhile isGap
  if line.isEmpty then some []
  else match lineEnd? line with
    | some rest => if rest.length < t.length then entries? rest else none
    | none =>
      match entry? line with
      | some (entry, rest) =>
        if rest.length < t.length then (entries? rest).map (entry :: ·) else none
      | none => none
  termination_by t.length

/-- The settings with one entry in force; `none` for an unknown key or a wrong type. -/
def withEntry? (s : Settings) : Text × Value → Option Settings
  | (key, .flag b) => if key = "book".toList then some { s with book := b } else none
  | (key, .text t) =>
    if key = "line_directive".toList then some { s with directive := ⟨t⟩ }
    else if key = "doc_out_dir".toList then some { s with outDir := some ⟨t⟩ }
    else if key = "chunk_name_marker".toList then some { s with marker := t }
    else none

/-- Whether some key comes twice. -/
def hasDuplicate : List (Text × Value) → Bool
  | [] => false
  | entry :: rest => rest.any (·.1 == entry.1) || hasDuplicate rest

/-- The settings that a file spells, after a byte order mark if there is one. -/
def parse? (t : Text) : Option Settings :=
  let t := match t with
    | '\uFEFF' :: rest => rest
    | t => t
  (entries? t).bind fun entries =>
    if hasDuplicate entries then none else entries.foldlM withEntry? .default

end Literate.SettingsFile
