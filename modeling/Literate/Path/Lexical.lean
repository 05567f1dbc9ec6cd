import Literate.Path.Basic

/-!
# Lexical paths

Links between documents and names of output files are computed from spellings alone. A normal path
has no `.`, and has `..` only at the start of a relative path; every path has one normal form.
-/

namespace Literate.Path

/-- One component more on a stack of settled components, innermost first: `..` cancels a name, and
stays put at the root. -/
def settle (done : List Component) (c : Component) : List Component :=
  match c with
  | .here => done
  | .up =>
    match done with
    | .name _ :: outer => outer
    | .root :: _ => done
    | _ => .up :: done
  | c => c :: done

/-- The path without `.` components and with every `..` folded into the name before it. -/
def normalize (p : Path) : Path :=
  ofComponents (p.components.foldl settle []).reverse

/-- Number of components at the start that two lists have in common. -/
def commonLength : List Component → List Component → Nat
  | a :: as, b :: bs => if a = b then commonLength as bs + 1 else 0
  | _, _ => 0

/-- The path `target` as seen from the directory `dir`: up out of what they do not share, then down
to the target. -/
def relativeTo (dir target : Path) : Path :=
  let source := (normalize dir).components
  let goal := (normalize target).components
  let shared := commonLength source goal
  ofComponents (List.replicate (source.length - shared) .up ++ goal.drop shared)

/-- The path as it is written in a link, with one slash between components. -/
def toLink (p : Path) : Text :=
  Text.join ['/'] (p.components.map Component.text)

/-- The document that a link on a page at `current` leads to. -/
def resolveLink (current : Path) (target : Text) : Path :=
  normalize (current.parent.join ⟨target⟩)

/-- The name that stands for the standard input. -/
def standardInput : Path := ⟨['-']⟩

/-- The page written for `input`: its place below `rootDir` is repeated below `outDir`, with the
extension of a page. The standard input and the empty path have a page name of their own. -/
def outputName (input rootDir outDir : Path) : Path :=
  if input.spelling.isEmpty || input == standardInput then
    normalize (outDir.join ⟨"out.html".toList⟩)
  else
    normalize ((outDir.join (relativeTo rootDir input)).withExtension "html".toList)

end Literate.Path
