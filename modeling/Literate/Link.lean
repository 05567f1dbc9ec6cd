import Literate.Text.Blank
import Literate.Text.Word

/-!
# Links to chapters

A link to another document is written `](path.md#fragment "title")`, with fragment and title
optional. The path has neither `)` nor `#` and ends in `.md` after at least one other character; the
fragment is made of word characters, `-` and `.`; the title is separated by blanks and has no inner
quote.

A line is cut into segments from left to right: at the first place where a link can start, the link
with the longest path is taken, and the search goes on behind it. Putting the segments together
gives the line back, so replacing paths changes nothing else.
-/

namespace Literate

/-- A link as written, in its parts. The fragment keeps its `#`, the title its blanks and quotes. -/
structure Link where
  path : Text
  fragment : Option Text
  title : Option Text
  deriving DecidableEq

/-- A piece of a line: a single character outside links, or a link. -/
inductive LinkSegment where
  | char (c : Char)
  | link (l : Link)
  deriving DecidableEq

namespace Link

/-- The characters that a path is made of. -/
def isPathChar (c : Char) : Bool :=
  c != ')' && c != '#'

/-- The characters of a fragment behind its `#`. -/
def isFragmentChar (c : Char) : Bool :=
  c == '-' || c == '.' || isWord c

/-- The link's text behind its path, before the closing bracket. -/
def tail (l : Link) : Text :=
  l.fragment.getD [] ++ l.title.getD []

/-- The link written with another path. -/
def textWith (l : Link) (path : Text) : Text :=
  [']', '('] ++ path ++ l.tail ++ [')']

/-- The link as written. -/
def text (l : Link) : Text :=
  l.textWith l.path

/-- A link with a scheme leads out of the book. -/
def isExternal (l : Link) : Bool :=
  Text.occurs "://".toList l.path

/-- The fragment at the start of a text, and the rest. -/
def fragmentAt (t : Text) : Option Text × Text :=
  match t with
  | '#' :: rest => (some ('#' :: rest.takeWhile isFragmentChar), rest.dropWhile isFragmentChar)
  | _ => (none, t)

/-- The title at the start of a text, and the rest. -/
def titleAt (t : Text) : Option Text × Text :=
  let blanks := t.takeWhile isBlank
  if blanks.isEmpty then (none, t)
  else match t.dropWhile isBlank with
    | '"' :: rest =>
      match rest.dropWhile (· != '"') with
      | '"' :: rest' => (some (blanks ++ '"' :: rest.takeWhile (· != '"') ++ ['"']), rest')
      | _ => (none, t)
    | _ => (none, t)

/-- Fragment and title, when nothing but the closing bracket follows them. -/
def tailAt? (t : Text) : Option (Option Text × Option Text) :=
  let (fragment, rest) := fragmentAt t
  let (title, rest) := titleAt rest
  if rest.head? = some ')' then some (fragment, title) else none

/-- The end that every path has. -/
def extension : Text := ".md".toList

/-- Whether a path can end behind the extension that a text starts with. -/
def endsAt (t : Text) : Bool :=
  match Text.after? extension t with
  | some rest => (tailAt? rest).isSome
  | none => false

/-- The length of the longest start of a text with which a path can end: its last characters are the
extension, and none of them stops a path. -/
def reach? : Text → Option Nat
  | [] => none
  | c :: rest =>
    if isPathChar c then
      match reach? rest with
      | some n => some (n + 1)
      | none => if endsAt (c :: rest) then some extension.length else none
    else none

/-- The link that starts at the first character of a text. Its path has at least one character before
the extension. -/
def at? (t : Text) : Option Link :=
  match Text.after? [']', '('] t with
  | some (c :: rest) =>
    if isPathChar c then
      (reach? rest).bind fun n =>
        (tailAt? (rest.drop n)).map fun (fragment, title) => ⟨c :: rest.take n, fragment, title⟩
    else none
  | _ => none

/-- The segments of a line. -/
def segments : Text → List LinkSegment
  | [] => []
  | c :: rest =>
    match at? (c :: rest) with
    | some l => .link l :: segments (rest.drop (l.text.length - 1))
    | none => .char c :: segments rest
  termination_by t => t.length
  decreasing_by all_goals simp only [List.length_cons, List.length_drop]; omega

/-- The links of a line, from left to right. -/
def ofLine (line : Text) : List Link :=
  (segments line).filterMap fun
    | .link l => some l
    | .char _ => none

/-- The links of segments that start at a byte position, each with the bytes where its path starts
and ends. -/
def spansFrom (pos : Nat) : List LinkSegment → List (Link × Nat × Nat)
  | [] => []
  | .char c :: rest => spansFrom (pos + c.utf8Size) rest
  | .link l :: rest =>
    (l, pos + 2, pos + 2 + l.path.byteSize) :: spansFrom (pos + l.text.byteSize) rest

/-- The links of a line, each with the bytes where its path starts and ends. -/
def spans (line : Text) : List (Link × Nat × Nat) :=
  spansFrom 0 (segments line)

/-- A segment with the path of its link replaced, where `f` gives a new one. -/
def retargetSegment (f : Link → Option Text) : LinkSegment → Text
  | .char c => [c]
  | .link l => l.textWith ((f l).getD l.path)

/-- The line with the paths of its links replaced, where `f` gives a new one. -/
def retarget (f : Link → Option Text) (line : Text) : Text :=
  (segments line).flatMap (retargetSegment f)

/-- Whether some link of the line gets a new path. -/
def retargets (f : Link → Option Text) (line : Text) : Bool :=
  (ofLine line).any fun l => (f l).isSome

/-- A copy of a line in the making: what is written of it, and up to which byte the line is used. -/
structure Copy where
  written : Text
  used : Nat

/-- What becomes of a line: it stays as it is, or is another text. -/
inductive Rewritten where
  | same
  | changed (t : Text)
  deriving DecidableEq

/-- The text of a line that was rewritten. -/
def Rewritten.text (line : Text) : Rewritten → Text
  | same => line
  | changed t => t

/-- Copies a line link by link. Each link is asked for a new path in turn, by a question that may
remember those before; where there is one, the copy gets the line up to the path, and the new path
for it. The line has to be cut where a path starts, which may fail. -/
def copyLinks {σ : Type} (replace : Link × Nat × Nat → StateM σ (Option Text)) (line : Text) :
    List (Link × Nat × Nat) → Copy → σ → Option (Copy × σ)
  | [], copy, s => some (copy, s)
  | link :: rest, copy, s =>
    match replace link s with
    | (none, s) => copyLinks replace line rest copy s
    | (some path, s) =>
      (line.slice? copy.used link.2.1).bind fun between =>
        copyLinks replace line rest ⟨copy.written ++ between ++ path, link.2.2⟩ s

/-- The line with new paths for the links that are given one. If nothing of the line is used when all
links are through, none was given one. -/
def rewrite {σ : Type} (replace : Link × Nat × Nat → StateM σ (Option Text)) (line : Text) (s : σ) :
    Option (Rewritten × σ) :=
  (copyLinks replace line (spans line) ⟨[], 0⟩ s).bind fun (copy, s) =>
    if copy.used = 0 then some (.same, s)
    else (line.cutAt? copy.used).map fun cut => (.changed (copy.written ++ cut.2), s)

end Link

end Literate
