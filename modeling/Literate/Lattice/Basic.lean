import Literate.Chunk.Table

/-!
# The lattice of chunks

The lattice says which chunk refers to which. Every name that is defined or referred to has one
node, with the names it refers to and the names that refer to it, each in the order in which they
were first met. Names that nothing refers to are the roots: each one becomes a file.
-/

namespace Literate

/-- The neighbours of a name. -/
structure LatticeNode where
  children : List ChunkName
  parents : List ChunkName

/-- Who refers to whom, by name. -/
structure Lattice where
  nodes : OrderedMap ChunkName LatticeNode

namespace Lattice

/-- The lattice without names. -/
def empty : Lattice := ⟨{}⟩

/-- The names of the lattice, in the order in which they were met. -/
def names (l : Lattice) : List ChunkName :=
  l.nodes.keys

/-- Number of names. -/
def size (l : Lattice) : Nat :=
  l.nodes.size

/-- The names that a name refers to. -/
def children (l : Lattice) (name : ChunkName) : List ChunkName :=
  match l.nodes.get? name with
  | some node => node.children
  | none => []

/-- The names that refer to a name. -/
def parents (l : Lattice) (name : ChunkName) : List ChunkName :=
  match l.nodes.get? name with
  | some node => node.parents
  | none => []

/-- The lattice with a node for the name. -/
def addName (l : Lattice) (name : ChunkName) : Lattice :=
  ⟨l.nodes.alter name fun node => node.getD ⟨[], []⟩⟩

/-- The lattice in which `parent` refers to `child`. -/
def addEdge (l : Lattice) (parent child : ChunkName) : Lattice :=
  let nodes := ((l.addName parent).addName child).nodes
  let nodes := nodes.alter parent fun node =>
    let node := node.getD ⟨[], []⟩
    { node with children := addNew node.children child }
  ⟨nodes.alter child fun node =>
    let node := node.getD ⟨[], []⟩
    { node with parents := addNew node.parents parent }⟩

/-- The lattice with a chunk's name and everything that the chunk refers to. -/
def addChunk (l : Lattice) (name : ChunkName) (chunk : Chunk) : Lattice :=
  chunk.references.foldl (fun l child => l.addEdge name child) (l.addName name)

/-- The lattice of a table, chunk by chunk. -/
def ofTable (table : ChunkTable) : Lattice :=
  table.entries.foldl (fun l entry => l.addChunk entry.1 entry.2) empty

/-- The names that nothing refers to. -/
def roots (l : Lattice) : List ChunkName :=
  (l.nodes.entries.filter fun entry => entry.2.parents.isEmpty).map Prod.fst

/-- A name with a child is a name of the lattice. -/
theorem mem_names_of_mem_children {l : Lattice} {name child : ChunkName}
    (h : child ∈ l.children name) : name ∈ l.names := by
  unfold children at h
  split at h
  · next node hn => exact OrderedMap.mem_keys_iff.2 ⟨node, hn⟩
  · simp at h

/-- A name with a parent is a name of the lattice. -/
theorem mem_names_of_mem_parents {l : Lattice} {name p : ChunkName} (h : p ∈ l.parents name) :
    name ∈ l.names := by
  unfold parents at h
  split at h
  · next node hn => exact OrderedMap.mem_keys_iff.2 ⟨node, hn⟩
  · simp at h

/-- Climbing from `current` through first parents, until a name has none or comes up again. -/
def climb (l : Lattice) (visited : List ChunkName) (current : ChunkName) : ChunkName :=
  if _hv : visited.contains current then current
  else match _hp : l.parents current with
    | [] => current
    | parent :: _ => l.climb (current :: visited) parent
  termination_by (l.names.filter fun n => !visited.contains n).length
  decreasing_by
    refine length_filter_lt (fun x hx => ?_)
      (mem_names_of_mem_parents (l := l) (by rw [_hp]; exact List.mem_cons_self)) (by simpa using _hv)
      (by simp)
    simp only [List.contains_cons, Bool.not_or, Bool.and_eq_true] at hx
    exact hx.2

/-- The name at the top of a chunk: the root that first parents lead to. -/
def topOf (l : Lattice) (name : ChunkName) : ChunkName :=
  l.climb [] name

end Lattice

end Literate
