import Literate.Ordering
import Literate.Text.Basic

/-!
# Paths

A path is held as it was spelled. What it means is its list of components: an optional root, a `.`
only at the very start of a relative path, `..`, and names. Repeated and trailing slashes and inner
`.` parts spell nothing. Two spellings with the same components are the same path, and `==` says so;
the spelling still shows wherever a path is printed.

Each component is kept with the position where it ends in the spelling, so that the parent of a path
and a changed extension are cuts of the spelling.
-/

namespace Literate

/-- One step of a path. -/
inductive Component where
  | root
  | here
  | up
  | name (text : Text)
  deriving DecidableEq

namespace Component

/-- How a component is spelled. -/
def text : Component → Text
  | .root => ['/']
  | .here => ['.']
  | .up => ['.', '.']
  | .name t => t

/-- The meaning of a part between slashes; empty parts and `.` mean nothing. -/
def ofPart? : Text → Option Component
  | [] => none
  | ['.'] => none
  | ['.', '.'] => some .up
  | t => some (.name t)

/-- The root comes first, then `.`, then `..`, then names by their characters. -/
def compare : Component → Component → Ordering
  | .root, .root => .eq
  | .root, _ => .lt
  | _, .root => .gt
  | .here, .here => .eq
  | .here, _ => .lt
  | _, .here => .gt
  | .up, .up => .eq
  | .up, _ => .lt
  | _, .up => .gt
  | .name s, .name t => compareLists (fun a b => Ord.compare a.toNat b.toNat) s t

end Component

/-- A path, as it was spelled. -/
structure Path where
  spelling : Text

namespace Path

/-- The path spelled by a string. -/
def ofString (s : String) : Path :=
  ⟨s.toList⟩

instance : ToString Path := ⟨fun p => String.ofList p.spelling⟩

/-- The path without any component. -/
def empty : Path := ⟨[]⟩

/-- Whether the path starts at the root. -/
def isAbsolute (p : Path) : Bool :=
  p.spelling.head? == some '/'

/-- Parts with the position where each one ends, when the first starts at `pos` and a slash stands
between neighbours. -/
def ends (pos : Nat) : List Text → List (Text × Nat)
  | [] => []
  | part :: parts => (part, pos + part.length) :: ends (pos + part.length + 1) parts

/-- The component of a part, with its end. -/
def markOf? (part : Text × Nat) : Option (Component × Nat) :=
  (Component.ofPart? part.1).map (·, part.2)

/-- The components of a path, each with the position where it ends in the spelling. -/
def marks (p : Path) : List (Component × Nat) :=
  let parts := ends 0 (p.spelling.splitOn '/')
  if p.isAbsolute then (.root, 1) :: parts.filterMap markOf?
  else match parts with
    | (['.'], e) :: rest => (.here, e) :: rest.filterMap markOf?
    | parts => parts.filterMap markOf?

/-- The components of a path. -/
def components (p : Path) : List Component :=
  p.marks.map Prod.fst

/-- Two spellings are the same path when their components agree. -/
instance : BEq Path := ⟨fun p q => p.components == q.components⟩

theorem beq_iff {p q : Path} : (p == q) = true ↔ p.components = q.components := by
  show (p.components == q.components) = true ↔ _
  simp

/-- Same path is an equivalence of spellings. -/
instance : EquivBEq Path where
  rfl := beq_iff.2 rfl
  symm h := beq_iff.2 (beq_iff.1 h).symm
  trans h k := beq_iff.2 ((beq_iff.1 h).trans (beq_iff.1 k))

/-- Paths in the order of their components. -/
def compare (p q : Path) : Ordering :=
  compareLists Component.compare p.components q.components

/-- The path `q` as seen from `p`: an absolute `q` stands for itself. -/
def join (p q : Path) : Path :=
  if q.isAbsolute then q
  else if p.spelling.isEmpty || p.spelling.getLast? == some '/' then ⟨p.spelling ++ q.spelling⟩
  else ⟨p.spelling ++ '/' :: q.spelling⟩

/-- The components put together, each joined to the path before it. -/
def ofComponents (cs : List Component) : Path :=
  cs.foldl (fun p c => p.join ⟨c.text⟩) empty

/-- The path without its last component: the spelling cut where the component before it ends.
The empty path and the root have no parent. -/
def parent? (p : Path) : Option Path :=
  match p.marks.reverse with
  | [] => none
  | (.root, _) :: _ => none
  | _ :: [] => some empty
  | _ :: (_, e) :: _ => some ⟨p.spelling.take e⟩

/-- The parent, or the empty path when there is none. -/
def parent (p : Path) : Path :=
  p.parent?.getD empty

/-- The path and its parents, from the inside out: the path itself, then the spelling cut at the end
of every earlier component, then the empty path if the path is relative and has a component. -/
def ancestors (p : Path) : List Path :=
  let cuts := (p.marks.reverse.drop 1).map fun m => (⟨p.spelling.take m.2⟩ : Path)
  p :: cuts ++ (if p.isAbsolute || p.marks.isEmpty then [] else [empty])

/-- The part of a file name before its last dot; a dot that starts the name does not count. -/
def stem (name : Text) : Text :=
  let before := (Text.dropWhileEnd (· != '.') name).dropLast
  if before.isEmpty then name else before

/-- The path with the extension of its file name replaced. A path that does not end in a name is
left alone; so is what remains of `..x` at the very end of a path, because without its extension it is
no name any more. -/
def withExtension (p : Path) (extension : Text) : Path :=
  match p.marks.getLast? with
  | some (.name n, e) =>
    let kept := e - n.length + (stem n).length
    if stem n == ['.'] && e == p.spelling.length then ⟨p.spelling.take (kept + 1)⟩
    else ⟨p.spelling.take kept ++ '.' :: extension⟩
  | _ => p

end Path

end Literate
