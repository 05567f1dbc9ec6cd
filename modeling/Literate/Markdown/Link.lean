import Literate.Markdown.Entity
import Literate.Text.CaseFold

/-!
# Targets, titles and labels

Behind its text, a link has a target and may have a title, both between round brackets. The target
may stand in angle brackets. References and footnotes have labels instead; a run of blanks in a label
counts as one blank, and the case of its letters does not matter.

A link may run over several lines. There `resume` leads from the start of a line to the position
behind the marks of the blocks around it.
-/

namespace Literate.Markdown

/-! ## Labels -/

/-- The weight at which a label is too long. -/
def labelLimit : Nat := 1000

/-- What a character adds to the weight of a label: the bytes of its UTF-8 form, and nothing if it is
a character of ASCII. -/
def labelWeight (c : Char) : Nat :=
  if c.utf8Size = 1 then 0 else c.utf8Size

/-- A label and the position behind its closing bracket, from behind the opening bracket on; `label`
is what has been read, the last character first, `weight` its weight, to which escapes and blanks add
too, and `filled` tells whether it holds more than blanks. A run of blanks may hold one line end that
`resume` leads over. -/
def labelFrom? (s : Source) (inTable : Bool) (resume : Nat → Option Nat) (label : Text)
    (weight : Nat) (filled : Bool) (i : Nat) : Option (Text × Nat) :=
  if i < s.stop ∧ weight < labelLimit then
    match s.get? i with
    | none => none
    | some '[' => none
    | some ']' => if filled then some (label.reverse, i + 1) else none
    | some '\\' =>
      if inTable && s.has '|' (i + 1) then
        labelFrom? s inTable resume ('|' :: label) (weight + 2) filled (i + 2)
      else match s.get? (i + 1) with
        | some d => labelFrom? s inTable resume (d :: '\\' :: label) (weight + 2) filled (i + 2)
        | none => none
    | some c =>
      if isSourceBlank c then
        let stop := s.skip isInnerBlank i
        let behind := match s.lineEnd? stop with
          | none => some stop
          | some next =>
            ((resume next).map (s.skip isInnerBlank)).filter fun content => !s.atLineEnd content
        match behind with
        | some next =>
          let next := max (i + 1) next
          labelFrom? s inTable resume (' ' :: label) (weight + (next - i)) filled next
        | none => none
      else labelFrom? s inTable resume (c :: label) (weight + labelWeight c) true (i + 1)
  else none
  termination_by s.stop - i

/-- A label and the position behind its closing bracket, from behind the opening bracket on. -/
def label? (s : Source) (inTable : Bool) (resume : Nat → Option Nat) (i : Nat) :
    Option (Text × Nat) :=
  labelFrom? s inTable resume [] 0 false i

/-- The label of a footnote and the position behind its closing bracket, when one stands at a
position. It is on one line. -/
def footnoteLabel? (s : Source) (inTable : Bool) (i : Nat) : Option (Text × Nat) :=
  if s.hasText "[^".toList i then label? s inTable (fun _ => none) (i + 2) else none

/-- A label in the form in which labels are compared. -/
def labelKey (label : Text) : Text :=
  label.folded

/-! ## Targets -/

/-- The position of the angle bracket that closes a target, from behind the first one on. -/
def angleTarget? (s : Source) (i : Nat) : Option Nat :=
  if i < s.stop then
    if escapesAt s i then angleTarget? s (i + 2)
    else match s.get? i with
      | some '>' => some i
      | some c => if c == '<' || c == '\n' || c == '\r' then none else angleTarget? s (i + 1)
      | none => none
  else none
  termination_by s.stop - i

/-- How deep round brackets are nested in a target before one of them is one too many. -/
def targetNesting : Nat := 32

/-- The position behind a target without angle brackets: before a blank, a control character, or a
round bracket that it does not open. Round brackets are nested only so deep. -/
def plainTarget? (s : Source) (depth : Nat) (i : Nat) : Option Nat :=
  if i < s.stop then
    if escapesAt s i then plainTarget? s depth (i + 2)
    else match s.get? i with
      | some '(' => if targetNesting < depth then none else plainTarget? s (depth + 1) (i + 1)
      | some ')' => if depth = 0 then some i else plainTarget? s (depth - 1) (i + 1)
      | some c =>
        if c ≤ ' ' then if depth = 0 then some i else none else plainTarget? s depth (i + 1)
      | none => none
  else if depth = 0 then some i else none
  termination_by s.stop - i

/-- The target at a position, as written, and the position behind it. -/
def target? (s : Source) (i : Nat) : Option (Text × Nat) :=
  if s.has '<' i then (angleTarget? s (i + 1)).map fun stop => (s.slice (i + 1) stop, stop + 1)
  else (plainTarget? s 0 i).map fun stop => (s.slice i stop, stop)

/-! ## Titles -/

/-- The rest of a title and the position behind its closing mark; `title` is what has been read, the
last character first. At a line end, `content` leads to where the text goes on. -/
def titleFrom? (s : Source) (inTable : Bool) (content : Nat → Option Nat) (opening closing : Char)
    (title : Text) (i : Nat) : Option (Text × Nat) :=
  if i < s.stop then
    match s.get? i with
    | none => none
    | some c =>
      if c == closing then some (title.reverse, i + 1)
      else if c == opening then none
      else
        let broken := if c == '\n' || c == '\r' then content i else none
        match broken, entityAt? s i with
        | some next, _ =>
          titleFrom? s inTable content opening closing ('\n' :: title) (max (i + 1) next)
        | none, some (value, next) =>
          titleFrom? s inTable content opening closing (value.reverse ++ title) (max (i + 1) next)
        | none, none =>
          if inTable && s.hasText "\\\\|".toList i then
            titleFrom? s inTable content opening closing ('|' :: title) (i + 3)
          else if escapesAt s i then
            titleFrom? s inTable content opening closing
              ((s.slice (i + 1) (i + 2)) ++ title) (i + 2)
          else titleFrom? s inTable content opening closing (c :: title) (i + 1)
  else none
  termination_by s.stop - i

/-- The title at a position and the position behind it. -/
def title? (s : Source) (inTable : Bool) (content : Nat → Option Nat) (i : Nat) :
    Option (Text × Nat) :=
  match s.get? i with
  | some '"' => titleFrom? s inTable content '"' '"' [] (i + 1)
  | some '\'' => titleFrom? s inTable content '\'' '\'' [] (i + 1)
  | some '(' => titleFrom? s inTable content '(' ')' [] (i + 1)
  | _ => none

/-! ## The tail of a link -/

/-- The position behind blanks with at most one line end among them. -/
def afterGap (s : Source) (resume : Nat → Nat) (i : Nat) : Nat :=
  let stop := s.skip isInnerBlank i
  match s.lineEnd? stop with
  | some next => s.skip isInnerBlank (if stop < next then resume next else next)
  | none => stop

/-- Where a link leads. -/
structure Destination where
  target : Text
  title : Text

/-- What stands between round brackets behind the text of a link, and the position behind it. -/
def tail? (s : Source) (inTable : Bool) (resume : Nat → Nat) (content : Nat → Option Nat)
    (i : Nat) : Option (Destination × Nat) := do
  guard (s.has '(' i)
  let (target, stop) ← target? s (afterGap s resume (i + 1))
  let stop := afterGap s resume stop
  let (title, stop) := match title? s inTable content stop with
    | some (title, stop) => (title, afterGap s resume stop)
    | none => ([], stop)
  if s.has ')' stop then some (⟨unescape inTable target, title⟩, stop + 1) else none

end Literate.Markdown
