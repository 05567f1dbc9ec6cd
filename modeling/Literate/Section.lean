import Literate.Line
import Literate.Path.Basic

/-!
# Sections

Headings number the sections of a document. A heading deeper than the current section opens new
counters at one; any other heading cuts the numbers to its level and counts the last one up. Before
the first heading stands the root section, which has no numbers and is labelled `0`.

The numbers are natural numbers in place of counters with 32 bits. A counter goes up by one with a
heading, so that none of them reaches `2 ^ 32` before as many headings have been read.
-/

namespace Literate

/-- A numbered section, in the document that it currently belongs to. -/
structure Section where
  file : Path
  numbers : List Nat
  text : Text
  deriving BEq

namespace Section

/-- The section before the first heading of a document. -/
def root (file : Path) : Section := ⟨file, [], []⟩

/-- Number of heading levels. -/
def depth (s : Section) : Nat :=
  s.numbers.length

/-- The numbers after a heading of the given level. -/
def advance (numbers : List Nat) (level : Nat) : List Nat :=
  if numbers.length < level then numbers ++ List.replicate (level - numbers.length) 1
  else numbers.take (level - 1) ++ [numbers.getD (level - 1) 0 + 1]

/-- The section that a line opens, when the line is a heading. -/
def next? (s : Section) (line : Text) : Option Section :=
  (Line.heading? line).map fun (level, text) => ⟨s.file, advance s.numbers level, text⟩

/-- The same section, owned by another document. -/
def movedTo (s : Section) (file : Path) : Section :=
  { s with file }

/-- The numbers joined by dots; `0` for the root. -/
def label (s : Section) : Text :=
  if s.numbers.isEmpty then ['0'] else Text.join ['.'] (s.numbers.map Text.ofNat)

/-- The name of the section's anchor on its page. -/
def anchor (s : Section) : Text :=
  "section-".toList ++ s.label

/-- Sections in the order of their numbers; a section comes before its subsections. -/
def compare (s t : Section) : Ordering :=
  compareLists Ord.compare s.numbers t.numbers

end Section

end Literate
