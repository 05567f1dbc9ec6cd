import Literate.Markdown.EntityName
import Literate.Markdown.Source

/-!
# Escapes and entities

A backslash makes the ASCII punctuation behind it literal. An entity is a name or a number between an
ampersand and a semicolon. Entities that are not known stay as they are written.
-/

namespace Literate.Markdown

/-- The character with a number; the replacement character stands for zero. -/
def numbered? (n : Nat) : Option Char :=
  if n = 0 then some '\uFFFD' else if n.isValidChar then some (Char.ofNat n) else none

/-- A numeric entity, from behind its number sign: at most `most` digits and a semicolon. -/
def numericEntity? (base most : Nat) (t : Text) : Option (Text × Text) :=
  let isDigit := fun c => (digitValue? base c).isSome
  let digits := t.takeWhile isDigit
  match t.drop digits.length with
  | ';' :: rest =>
    if digits.isEmpty || most < digits.length then none
    else (numbered? (numberOf base digits)).map fun c => ([c], rest)
  | _ => none

/-- The text of an entity and what follows it, from behind the ampersand. -/
def entity? (t : Text) : Option (Text × Text) :=
  match t with
  | '#' :: 'x' :: rest => numericEntity? 16 6 rest
  | '#' :: 'X' :: rest => numericEntity? 16 6 rest
  | '#' :: rest => numericEntity? 10 7 rest
  | t =>
    let name := t.takeWhile Char.isAlphanum
    match t.drop name.length with
    | ';' :: rest => (namedEntity? name).map fun value => (value, rest)
    | _ => none

/-- More characters than an entity has. -/
def entityLimit : Nat := 40

/-- The text of the entity at a position, and the position behind it. -/
def entityAt? (s : Source) (i : Nat) : Option (Text × Nat) :=
  if s.has '&' i then
    let ahead := s.slice (i + 1) (min s.stop (i + entityLimit))
    (entity? ahead).map fun (value, rest) => (value, i + 1 + (ahead.length - rest.length))
  else none

/-- Whether a backslash at a position makes the next character literal. -/
def escapesAt (s : Source) (i : Nat) : Bool :=
  s.has '\\' i && s.test isAsciiPunctuation (i + 1)

/-- The text with its escapes and entities replaced and without carriage returns. In the cell of a
table, a bar takes all backslashes before it. -/
def unescape (inTable : Bool) (t : Text) : Text :=
  match t with
  | [] => []
  | '\\' :: '\\' :: '|' :: rest =>
    if inTable then '|' :: unescape inTable rest
    else '\\' :: '|' :: unescape inTable rest
  | '\\' :: c :: rest =>
    if isAsciiPunctuation c then c :: unescape inTable rest
    else '\\' :: unescape inTable (c :: rest)
  | '&' :: rest =>
    match entity? rest with
    | some (value, behind) =>
      if behind.length < rest.length then value ++ unescape inTable behind
      else '&' :: unescape inTable rest
    | none => '&' :: unescape inTable rest
  | c :: rest => if c == '\r' then unescape inTable rest else c :: unescape inTable rest
  termination_by t.length

end Literate.Markdown
