import Literate.Proofs.Reference

/-! # The edges of a compiled lattice

    A lattice is built from a table by adding names and edges one after the
    other (`Addition`, `ofTable_eq_ofAdditions`).  What each addition does to the
    neighbours of every name is one equation (`children_addEdge`,
    `parents_addEdge`), and what every addition keeps is an invariant of all
    lattices (`Sound`).  Folding the additions over the chunks of a table gives
    the lattice of the whole table: its edges are the references
    (`mem_children_ofTable`, `mem_parents_ofTable`), its names are all names that
    are defined or referred to, in the order in which they are first mentioned
    (`names_ofTable`). -/

namespace Literate

/-- One addition to a lattice. -/
inductive Addition where
  | name (added : ChunkName)
  | edge (parent child : ChunkName)
  deriving DecidableEq

namespace Addition

/-- The lattice behind an addition. -/
def extend (a : Addition) (l : Lattice) : Lattice :=
  match a with
  | .name added => l.addName added
  | .edge parent child => l.addEdge parent child

end Addition

namespace ChunkTable

/-- The additions for each chunk: its name, then an edge for each of its references. -/
def additions (t : ChunkTable) : List Addition :=
  t.entries.flatMap fun e => .name e.1 :: e.2.references.map (.edge e.1)

end ChunkTable

namespace Lattice

variable {l : Lattice}

/-- The neighbours of a name; a name without a node has none. -/
def node (l : Lattice) (name : ChunkName) : LatticeNode :=
  (l.nodes.get? name).getD ⟨[], []⟩

theorem children_eq_node (l : Lattice) (name : ChunkName) :
    l.children name = (l.node name).children := by
  rw [children, node]
  cases l.nodes.get? name <;> rfl

theorem parents_eq_node (l : Lattice) (name : ChunkName) :
    l.parents name = (l.node name).parents := by
  rw [parents, node]
  cases l.nodes.get? name <;> rfl

theorem node_empty (name : ChunkName) : empty.node name = ⟨[], []⟩ := rfl

/-- Changing one node changes the neighbours of its name alone. -/
theorem node_alter (l : Lattice) (k name : ChunkName) (f : LatticeNode → LatticeNode) :
    node ⟨l.nodes.alter k fun n => f (n.getD ⟨[], []⟩)⟩ name
      = if k = name then f (l.node k) else l.node name := by
  simp only [node]
  rw [OrderedMap.get?_alter]
  by_cases h : k = name <;> simp [h]

/-! ## One addition -/

/-- A name that is added brings no edge. -/
theorem node_addName (l : Lattice) (k name : ChunkName) :
    (l.addName k).node name = l.node name := by
  refine (node_alter l k name id).trans ?_
  split
  · next h => rw [h]; rfl
  · rfl

/-- The neighbours of every name after an edge was added. -/
theorem node_addEdge (l : Lattice) (parent child name : ChunkName) :
    (l.addEdge parent child).node name
      = ⟨if parent = name then addNew (l.children name) child else l.children name,
          if child = name then addNew (l.parents name) parent else l.parents name⟩ := by
  have hnode (m : ChunkName) :
      ((l.addName parent).addName child).node m = ⟨l.children m, l.parents m⟩ := by
    rw [node_addName, node_addName, children_eq_node, parents_eq_node]
  have hdown := fun m => node_alter ((l.addName parent).addName child) parent m
    fun n => { n with children := addNew n.children child }
  have hup := node_alter
    ⟨((l.addName parent).addName child).nodes.alter parent fun n =>
      { n.getD ⟨[], []⟩ with children := addNew (n.getD ⟨[], []⟩).children child }⟩
    child name fun n => { n with parents := addNew n.parents parent }
  refine hup.trans ?_
  -- a name that refers to itself has its node changed twice
  rw [hdown, hdown, hnode, hnode, hnode]
  by_cases hp : parent = name <;> by_cases hc : child = name <;> simp_all

/-- An edge makes the child a child of the parent, and nothing else. -/
theorem children_addEdge (l : Lattice) (parent child name : ChunkName) :
    (l.addEdge parent child).children name
      = if parent = name then addNew (l.children name) child else l.children name := by
  rw [children_eq_node, node_addEdge]

/-- An edge makes the parent a parent of the child, and nothing else. -/
theorem parents_addEdge (l : Lattice) (parent child name : ChunkName) :
    (l.addEdge parent child).parents name
      = if child = name then addNew (l.parents name) parent else l.parents name := by
  rw [parents_eq_node, node_addEdge]

theorem mem_children_addEdge {parent child a b : ChunkName} :
    b ∈ (l.addEdge parent child).children a ↔
      b ∈ l.children a ∨ (a = parent ∧ b = child) := by
  rw [children_addEdge]
  by_cases h : parent = a
  · simp [h, mem_addNew]
  · simp [h, Ne.symm h]

theorem mem_parents_addEdge {parent child a b : ChunkName} :
    a ∈ (l.addEdge parent child).parents b ↔
      a ∈ l.parents b ∨ (a = parent ∧ b = child) := by
  rw [parents_addEdge]
  by_cases h : child = b
  · simp [h, mem_addNew]
  · simp [h, Ne.symm h]

theorem names_addName (l : Lattice) (name : ChunkName) :
    (l.addName name).names = addNew l.names name :=
  OrderedMap.keys_alter _ _ _

/-- A name that is there already is not added again. -/
theorem addNew_of_mem {as : List ChunkName} {a : ChunkName} (h : a ∈ as) :
    addNew as a = as := by
  rw [addNew]
  rw [if_pos (List.contains_iff_mem.2 h)]

theorem names_addEdge (l : Lattice) (parent child : ChunkName) :
    (l.addEdge parent child).names = addNew (addNew l.names parent) child := by
  have h : (l.addEdge parent child).names
      = addNew (addNew (addNew (addNew l.names parent) child) parent) child := by
    refine (OrderedMap.keys_alter _ _ _).trans ?_
    rw [OrderedMap.keys_alter]
    show addNew (addNew ((l.addName parent).addName child).names parent) child = _
    rw [names_addName, names_addName]
  -- the second round of additions finds both names there
  rw [h, addNew_of_mem (a := parent), addNew_of_mem (a := child)]
  · exact mem_addNew.2 (Or.inr rfl)
  · exact mem_addNew.2 (Or.inl (mem_addNew.2 (Or.inr rfl)))

/-- Children and parents tell the same edges. -/
def Coherent (l : Lattice) : Prop :=
  ∀ a b, b ∈ l.children a ↔ a ∈ l.parents b

theorem coherent_empty : Coherent empty := by
  intro a b
  rw [children_eq_node, parents_eq_node, node_empty, node_empty]
  exact iff_of_false List.not_mem_nil List.not_mem_nil

theorem Coherent.addName (h : l.Coherent) (name : ChunkName) :
    (l.addName name).Coherent := by
  intro a b
  rw [children_eq_node, parents_eq_node, node_addName, node_addName,
    ← children_eq_node, ← parents_eq_node]
  exact h a b

theorem Coherent.addEdge (h : l.Coherent) (parent child : ChunkName) :
    (l.addEdge parent child).Coherent := by
  intro a b
  rw [mem_children_addEdge, mem_parents_addEdge, h a b]

/-- In a coherent lattice whatever has a neighbour is a name. -/
theorem Coherent.mem_names {a b : ChunkName} (h : l.Coherent) (hab : b ∈ l.children a) :
    b ∈ l.names :=
  mem_names_of_mem_parents ((h a b).mp hab)

/-! ## A chunk with all its references -/

theorem mem_children_foldl_addEdge {name : ChunkName} {refs : List ChunkName} :
    ∀ {l : Lattice} {a b : ChunkName},
      b ∈ (refs.foldl (fun l child => l.addEdge name child) l).children a ↔
        b ∈ l.children a ∨ (a = name ∧ b ∈ refs) := by
  induction refs with
  | nil => simp
  | cons ref refs ih =>
      intro l a b
      rw [List.foldl_cons, ih, mem_children_addEdge, List.mem_cons, or_assoc,
        ← and_or_left]

theorem names_foldl_addEdge {name : ChunkName} {refs : List ChunkName} :
    ∀ {l : Lattice}, name ∈ l.names →
      (refs.foldl (fun l child => l.addEdge name child) l).names
        = refs.foldl addNew l.names := by
  induction refs with
  | nil => intro l _; rfl
  | cons ref refs ih =>
      intro l hn
      have hnames : (l.addEdge name ref).names = addNew l.names ref := by
        rw [names_addEdge, addNew_of_mem hn]
      rw [List.foldl_cons, ih, hnames, List.foldl_cons]
      rw [hnames]
      exact mem_addNew.2 (Or.inl hn)

theorem mem_children_addChunk {name a b : ChunkName} {chunk : Chunk} :
    b ∈ (l.addChunk name chunk).children a ↔
      b ∈ l.children a ∨ (a = name ∧ b ∈ chunk.references) := by
  rw [addChunk]
  rw [mem_children_foldl_addEdge, children_eq_node, node_addName, ← children_eq_node]

theorem names_addChunk (l : Lattice) (name : ChunkName) (chunk : Chunk) :
    (l.addChunk name chunk).names = (name :: chunk.references).foldl addNew l.names := by
  rw [addChunk]
  rw [names_foldl_addEdge, names_addName, List.foldl_cons]
  rw [names_addName]
  exact mem_addNew.2 (Or.inr rfl)

/-! ## All chunks, one after the other -/

theorem mem_children_foldl_addChunk {es : List (ChunkName × Chunk)} :
    ∀ {l : Lattice} {a b : ChunkName},
      b ∈ (es.foldl (fun l e => l.addChunk e.1 e.2) l).children a ↔
        b ∈ l.children a ∨ ∃ chunk, (a, chunk) ∈ es ∧ b ∈ chunk.references := by
  induction es with
  | nil => simp
  | cons e es ih =>
      intro l a b
      obtain ⟨name, chunk⟩ := e
      rw [List.foldl_cons, ih, mem_children_addChunk, or_assoc]
      refine or_congr_right ⟨?_, ?_⟩
      · rintro (⟨rfl, hb⟩ | ⟨c, hc, hb⟩)
        · exact ⟨chunk, List.mem_cons_self, hb⟩
        · exact ⟨c, List.mem_cons_of_mem _ hc, hb⟩
      · rintro ⟨c, hc, hb⟩
        rcases List.mem_cons.mp hc with heq | hmem
        · obtain ⟨rfl, rfl⟩ := Prod.mk.inj heq
          exact Or.inl ⟨rfl, hb⟩
        · exact Or.inr ⟨c, hmem, hb⟩

theorem names_foldl_addChunk {es : List (ChunkName × Chunk)} :
    ∀ {l : Lattice}, (es.foldl (fun l e => l.addChunk e.1 e.2) l).names
      = (es.flatMap fun e => e.1 :: e.2.references).foldl addNew l.names := by
  induction es with
  | nil => intro l; rfl
  | cons e es ih =>
      intro l
      rw [List.foldl_cons, ih, names_addChunk, List.flatMap_cons, List.foldl_append]

/-! ## Rows of additions -/

/-- The lattice that additions make of the empty one. -/
def ofAdditions (as : List Addition) : Lattice :=
  as.foldl (fun l a => a.extend l) empty

/-- What holds of the empty lattice and is kept by every addition holds behind all of them. -/
theorem ofAdditions_induct {P : Lattice → Prop} (h₀ : P empty)
    (hname : ∀ l name, P l → P (l.addName name))
    (hedge : ∀ l parent child, P l → P (l.addEdge parent child)) (as : List Addition) :
    P (ofAdditions as) := by
  have hrun : ∀ l, P l → P (as.foldl (fun l a => a.extend l) l) := by
    induction as with
    | nil => intro l hl; exact hl
    | cons a as ih =>
        intro l hl
        refine ih _ ?_
        cases a with
        | name added => exact hname l added hl
        | edge parent child => exact hedge l parent child hl
  exact hrun empty h₀

theorem addChunk_eq_foldl (l : Lattice) (name : ChunkName) (chunk : Chunk) :
    l.addChunk name chunk
      = (Addition.name name :: chunk.references.map (Addition.edge name)).foldl
          (fun l a => a.extend l) l := by
  rw [addChunk, List.foldl_cons, List.foldl_map]
  rfl

/-- The lattice of a table is made of the additions for its chunks, one after the other. -/
theorem ofTable_eq_ofAdditions (t : ChunkTable) : ofTable t = ofAdditions t.additions := by
  rw [ofTable, ofAdditions, ChunkTable.additions, List.foldl_flatMap]
  simp only [addChunk_eq_foldl]

/-- The neighbours of a lattice tell the same edges from both ends, and each edge once. -/
structure Sound (l : Lattice) : Prop where
  coherent : l.Coherent
  children_nodup : ∀ name, (l.children name).Nodup
  parents_nodup : ∀ name, (l.parents name).Nodup

theorem sound_empty : Sound empty where
  coherent := coherent_empty
  children_nodup name := by
    rw [children_eq_node, node_empty]
    exact List.nodup_nil
  parents_nodup name := by
    rw [parents_eq_node, node_empty]
    exact List.nodup_nil

theorem Sound.addName (h : l.Sound) (added : ChunkName) : (l.addName added).Sound where
  coherent := h.coherent.addName added
  children_nodup name := by
    rw [children_eq_node, node_addName, ← children_eq_node]
    exact h.children_nodup name
  parents_nodup name := by
    rw [parents_eq_node, node_addName, ← parents_eq_node]
    exact h.parents_nodup name

theorem Sound.addEdge (h : l.Sound) (parent child : ChunkName) :
    (l.addEdge parent child).Sound where
  coherent := h.coherent.addEdge parent child
  children_nodup name := by
    rw [children_addEdge]
    split
    · exact nodup_addNew (h.children_nodup name)
    · exact h.children_nodup name
  parents_nodup name := by
    rw [parents_addEdge]
    split
    · exact nodup_addNew (h.parents_nodup name)
    · exact h.parents_nodup name

theorem sound_ofAdditions (as : List Addition) : (ofAdditions as).Sound :=
  ofAdditions_induct sound_empty (fun _ added h => h.addName added)
    (fun _ parent child h => h.addEdge parent child) as

theorem sound_ofTable (t : ChunkTable) : (ofTable t).Sound := by
  rw [ofTable_eq_ofAdditions]
  exact sound_ofAdditions t.additions

theorem coherent_ofTable (t : ChunkTable) : (ofTable t).Coherent :=
  (sound_ofTable t).coherent

/-- No chunk is named twice among the parents of a name. -/
theorem nodup_parents_ofTable (t : ChunkTable) : ∀ name, ((ofTable t).parents name).Nodup :=
  (sound_ofTable t).parents_nodup

/-! ## The lattice of a table -/

/-- The children of a chunk are the names it refers to. -/
theorem mem_children_ofTable {t : ChunkTable} {a b : ChunkName} :
    b ∈ (ofTable t).children a ↔ t.Refers a b := by
  have hempty : b ∉ empty.children a := by
    rw [children_eq_node, node_empty]
    exact List.not_mem_nil
  rw [ofTable]
  rw [mem_children_foldl_addChunk, ChunkTable.refers_iff_mem_references]
  simp only [hempty, false_or, OrderedMap.get?_eq_some_iff]

/-- The parents of a name are the chunks that refer to it. -/
theorem mem_parents_ofTable {t : ChunkTable} {a b : ChunkName} :
    a ∈ (ofTable t).parents b ↔ t.Refers a b :=
  (coherent_ofTable t a b).symm.trans mem_children_ofTable

/-- The names of a lattice in the order in which the table first mentions them,
    each chunk before what it refers to. -/
theorem names_ofTable (t : ChunkTable) :
    (ofTable t).names
      = (t.entries.flatMap fun e => e.1 :: e.2.references).foldl addNew [] :=
  names_foldl_addChunk

/-- The names of a lattice are those defined and those referred to. -/
theorem mem_names_ofTable {t : ChunkTable} {name : ChunkName} :
    name ∈ (ofTable t).names ↔ name ∈ t.keys ∨ ∃ a, t.Refers a name := by
  have hmention : (∃ e ∈ t.entries, name ∈ e.1 :: e.2.references) ↔
      name ∈ t.keys ∨ ∃ a, t.Refers a name := by
    simp only [ChunkTable.refers_iff_mem_references, OrderedMap.get?_eq_some_iff,
      OrderedMap.keys, List.mem_map, List.mem_cons]
    constructor
    · rintro ⟨e, he, rfl | href⟩
      · exact Or.inl ⟨e, he, rfl⟩
      · exact Or.inr ⟨e.1, e.2, he, href⟩
    · rintro (⟨e, he, rfl⟩ | ⟨a, chunk, he, href⟩)
      · exact ⟨e, he, Or.inl rfl⟩
      · exact ⟨(a, chunk), he, Or.inr href⟩
  rw [names_ofTable, mem_foldl_addNew, List.mem_flatMap, hmention]
  simp

/-! ## Roots -/

theorem nodup_names (l : Lattice) : l.names.Nodup :=
  l.nodes.nodup_keys

/-- The roots are the names without parents, in the order of the names. -/
theorem roots_eq_filter (l : Lattice) :
    l.roots = l.names.filter fun name => (l.parents name).isEmpty := by
  have hparents (e : ChunkName × LatticeNode) (he : e ∈ l.nodes.entries) :
      l.parents e.1 = e.2.parents := by
    rw [parents]
    rw [OrderedMap.get?_eq_some_iff.2 he]
  rw [roots, names, OrderedMap.keys]
  rw [List.filter_map]
  -- the entries are read in place, the parents by name: keys are distinct, so it is the same
  refine congrArg _ (List.filter_congr fun e he => ?_)
  show _ = (l.parents e.1).isEmpty
  rw [hparents e he]

/-- The roots of a compiled lattice are the chunks that nothing refers to. -/
theorem mem_roots_ofTable {t : ChunkTable} {name : ChunkName} :
    name ∈ (ofTable t).roots ↔ name ∈ t.keys ∧ ∀ a, ¬ t.Refers a name := by
  rw [roots_eq_filter, List.mem_filter, List.isEmpty_iff, mem_names_ofTable,
    List.eq_nil_iff_forall_not_mem]
  simp only [mem_parents_ofTable]
  constructor
  · rintro ⟨hkey | ⟨a, ha⟩, hno⟩
    · exact ⟨hkey, hno⟩
    · exact absurd ha (hno a)
  · rintro ⟨hkey, hno⟩
    exact ⟨Or.inl hkey, hno⟩

end Lattice

end Literate
