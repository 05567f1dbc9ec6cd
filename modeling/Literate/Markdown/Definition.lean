import Literate.Markdown.Block

/-!
# Definitions of references

A definition gives a label its destination: the label in square brackets, a colon, a target and
perhaps a title. It may run over several lines, like a paragraph.
-/

namespace Literate.Markdown

/-- The position where the text of a paragraph goes on behind a line end, if the line at a position
does not start something else. -/
def nextContent? (s : Source) (containers : List Container) (i : Nat) : Option Cursor :=
  let (resumed, c) := resume s (.start i) containers
  let (indent, c) := c.columns s 4
  let stops := indent < 4 && (interruptsParagraph s containers (resumed == containers.length) c.pos
    || (underline? s c.pos).isSome)
  if stops then none else some c

/-- The number of line ends among the blanks at a position, at most one, and the position behind the
blanks. -/
def definitionGap? (s : Source) (containers : List Container) (i : Nat) : Option (Nat × Nat) :=
  let stop := s.skip isInnerBlank i
  match s.lineEnd? stop with
  | none => some (0, stop)
  | some next =>
    (nextContent? s containers next).bind fun c =>
      let start := s.skip isInnerBlank c.pos
      if s.atLineEnd start then none else some (1, start)

/-- The rest of a title and the position behind its closing mark; `title` is what has been read, the
last character first. -/
def definitionTitleFrom? (s : Source) (containers : List Container) (closing : Char) (title : Text)
    (i : Nat) : Option (Text × Nat) :=
  if i < s.stop then
    match s.get? i, s.lineEnd? i with
    | none, _ => none
    | some _, some next =>
      match nextContent? s containers next with
      | some c =>
        let start := c.content s
        if (s.blankLine? start).isSome then none
        else definitionTitleFrom? s containers closing ('\n' :: title) (max (i + 1) start)
      | none => none
    | some c, none =>
      if c == closing then some (title.reverse, i + 1)
      else if c == '(' && closing == ')' then none
      else if c == '\\' && !s.atLineEnd (i + 1) then
        definitionTitleFrom? s containers closing ((s.slice i (i + 2)).reverse ++ title) (i + 2)
      else definitionTitleFrom? s containers closing (c :: title) (i + 1)
  else none
  termination_by s.stop - i

/-- The title of a definition and the position behind it. -/
def definitionTitle? (s : Source) (containers : List Container) (i : Nat) : Option (Text × Nat) :=
  match s.get? i with
  | some '"' => definitionTitleFrom? s containers '"' [] (i + 1)
  | some '\'' => definitionTitleFrom? s containers '\'' [] (i + 1)
  | some '(' => definitionTitleFrom? s containers ')' [] (i + 1)
  | _ => none

/-- The destination of a definition from behind its colon on, and the position behind it. What stands
on the line of the target must be a title; what stands on the line below need not. -/
def definedAs? (s : Source) (containers : List Container) (i : Nat) : Option (Destination × Nat) := do
  let (_, start) ← definitionGap? s containers i
  let (target, stop) ← target? s start
  guard (start < stop)
  let target := unescape false target
  let bare := some (⟨target, []⟩, stop)
  match definitionGap? s containers stop with
  | none => bare
  | some (breaks, next) =>
    guard (stop < next || 0 < breaks || stop = s.stop)
    let titled := do
      let (title, behind) ← definitionTitle? s containers next
      let behind ← s.blankLine? behind
      return (⟨target, unescape false title⟩, behind)
    if titled.isNone && 0 < breaks then bare else titled

/-- The label, the destination and the position behind the definition at a position. -/
def definition? (s : Source) (containers : List Container) (i : Nat) :
    Option (Text × Destination × Nat) := do
  guard (s.has '[' i)
  let resumeLabel := fun j =>
    let (resumed, c) := resume s (.start j) containers
    let inside := resumed == containers.length
    let stops := interruptsParagraph s containers inside c.pos
      || (inside && (underline? s c.pos).isSome)
    if stops then none else some c.pos
  let (label, stop) ← label? s false resumeLabel (i + 1)
  guard (s.has ':' stop)
  let (destination, next) ← definedAs? s containers (stop + 1)
  return (label, destination, next)

end Literate.Markdown
