import Literate.Text.Punctuation

/-!
# Positions in a source

A page is read from an array of characters by functions that take a position and give the position
behind what they have read. A source may be cut short without copying it: only the characters before
its end are seen.

A line ends at a line feed, at a carriage return, or at both in this order; the end of the source
ends a line too. Code ends its lines at line feeds only.
-/

namespace Literate.Markdown

/-- Characters of which those before `stop` are seen. -/
structure Source where
  chars : Array Char
  stop : Nat

/-! ## Classes of characters -/

/-- Blanks within a line. -/
def isInnerBlank (c : Char) : Bool :=
  c == ' ' || c == '\t' || c == '\x0b' || c == '\x0c'

/-- Blanks within a line and line ends. -/
def isSourceBlank (c : Char) : Bool :=
  isInnerBlank c || c == '\n' || c == '\r'

/-- The blanks that make indentation. -/
def isSpaceOrTab (c : Char) : Bool :=
  c == ' ' || c == '\t'

namespace Source

/-- The source of a text. -/
def ofText (t : Text) : Source :=
  ⟨t.toArray, t.length⟩

/-- The source up to a position. -/
def upTo (s : Source) (stop : Nat) : Source :=
  { s with stop := min s.stop stop }

/-- The character at a position. -/
def get? (s : Source) (i : Nat) : Option Char :=
  if i < s.stop then s.chars[i]? else none

/-- Whether the character at a position satisfies `p`. -/
def test (s : Source) (p : Char → Bool) (i : Nat) : Bool :=
  match s.get? i with
  | some c => p c
  | none => false

/-- Whether a character stands at a position. -/
def has (s : Source) (c : Char) (i : Nat) : Bool :=
  s.test (· == c) i

/-- Whether a text stands at a position. -/
def hasText (s : Source) : Text → Nat → Bool
  | [], _ => true
  | c :: rest, i => s.has c i && s.hasText rest (i + 1)

/-- The text between two positions. -/
def slice (s : Source) (start stop : Nat) : Text :=
  (s.chars.extract start stop).toList

/-- The first position from `i` on whose character does not satisfy `p`. -/
def skip (s : Source) (p : Char → Bool) (i : Nat) : Nat :=
  if i < s.stop ∧ s.test p i = true then s.skip p (i + 1) else i
  termination_by s.stop - i

theorem le_skip (s : Source) (p : Char → Bool) (i : Nat) : i ≤ s.skip p i := by
  fun_induction skip s p i <;> omega

/-- The position in front of the characters satisfying `p` that end at a position. -/
def back (s : Source) (p : Char → Bool) : Nat → Nat
  | 0 => 0
  | i + 1 => if s.test p i then s.back p i else i + 1

/-- Whether an odd number of backslashes ends at a position. -/
def oddSlashes (s : Source) (i : Nat) : Bool :=
  (i - s.back (· == '\\') i) % 2 == 1

/-- The position behind a line end. -/
def lineEnd? (s : Source) (i : Nat) : Option Nat :=
  match s.get? i with
  | none => some i
  | some '\n' => some (i + 1)
  | some '\r' => some (if s.has '\n' (i + 1) then i + 2 else i + 1)
  | some _ => none

/-- Whether a line ends at a position. -/
def atLineEnd (s : Source) (i : Nat) : Bool :=
  (s.lineEnd? i).isSome

/-- The position behind the rest of a line, when that is blank. -/
def blankLine? (s : Source) (i : Nat) : Option Nat :=
  s.lineEnd? (s.skip isInnerBlank i)

/-- The position behind the next line feed. -/
def nextLine (s : Source) (i : Nat) : Nat :=
  min s.stop (s.skip (· != '\n') i + 1)

end Source

/-!
## Columns

Indentation is counted in columns. A tab reaches to the next multiple of four; where only a part of
its columns is taken, the cursor owes the others.
-/

/-- A place in the indentation of a line. -/
structure Cursor where
  pos : Nat
  /-- The line's start, or the position behind the last tab. -/
  base : Nat
  /-- Columns of the last tab that are not taken yet. -/
  owed : Nat

namespace Cursor

/-- The start of a line. -/
def start (i : Nat) : Cursor :=
  ⟨i, i, 0⟩

/-- The cursor behind one column. -/
def column? (s : Source) (c : Cursor) : Option Cursor :=
  if 0 < c.owed then some { c with owed := c.owed - 1 }
  else if s.has ' ' c.pos then some { c with pos := c.pos + 1 }
  else if s.has '\t' c.pos then some ⟨c.pos + 1, c.pos + 1, 3 - (c.pos - c.base) % 4⟩
  else none

/-- The number of columns taken, at most `n`, and the cursor behind them. -/
def columns (s : Source) (c : Cursor) : Nat → Nat × Cursor
  | 0 => (0, c)
  | n + 1 =>
    match c.column? s with
    | some c' =>
      let (taken, c'') := c'.columns s n
      (taken + 1, c'')
    | none => (0, c)

/-- The cursor behind all columns. -/
def content (s : Source) (c : Cursor) : Nat :=
  s.skip isSpaceOrTab c.pos

end Cursor

end Literate.Markdown
