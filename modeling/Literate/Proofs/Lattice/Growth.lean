import Literate.Proofs.Lattice.Edges

/-! # Two maps that mirror each other

    A lattice has one node for each name.  It can as well be kept as two maps,
    the children by name and the parents by name, each with guarded insertions
    of its own (`Addition.onChildren`, `Addition.onParents`) that know nothing
    of the other map.

    * Kept apart, the two maps are what the lattice shows of them, after every
      row of additions (`Lattice.childrenOf_ofAdditions`,
      `Lattice.parentsOf_ofAdditions`): one step lemma for each map and each
      addition.
    * So what holds of the lattice holds between the maps: they mirror each
      other (`Mirrored`), by what one addition keeps (`Lattice.Sound`).
    * The lattice of a table is such a row of additions
      (`Lattice.ofTable_eq_ofAdditions`); its names and its roots are read off
      the row of mentions in the table (`Lattice.names_ofTable_eq_eraseDups`,
      `Lattice.roots_ofTable_eq_filter_keys`). -/

namespace Literate

/-! ## Maps changed in their values -/

namespace OrderedMap

variable {κ ν μ : Type} [BEq κ]

/-- The map with every value changed in its place. -/
def mapValues (f : ν → μ) (m : OrderedMap κ ν) : OrderedMap κ μ :=
  ⟨m.entries.map fun e => (e.1, f e.2), List.pairwise_map.mpr m.distinct⟩

theorem ext_entries {m m' : OrderedMap κ ν} (h : m.entries = m'.entries) : m = m' := by
  cases m
  cases m'
  cases h
  rfl

theorem keys_mapValues (f : ν → μ) (m : OrderedMap κ ν) : (m.mapValues f).keys = m.keys := by
  rw [keys, keys, mapValues, List.map_map]
  rfl

theorem get?_mapValues (f : ν → μ) (m : OrderedMap κ ν) (k : κ) :
    (m.mapValues f).get? k = (m.get? k).map f := by
  rw [get?, get?, mapValues, List.find?_map, Option.map_map, Option.map_map]
  rfl

/-- A change of one value is a change of the value that shows. -/
theorem mapValues_alter {f : ν → μ} {g : Option ν → ν} {g' : Option μ → μ}
    (h : ∀ v, f (g v) = g' (v.map f)) (m : OrderedMap κ ν) (k : κ) :
    (m.alter k g).mapValues f = (m.mapValues f).alter k g' := by
  refine ext_entries ?_
  show (alterEntries k g m.entries).map (fun e => (e.1, f e.2))
    = alterEntries k g' (m.entries.map fun e => (e.1, f e.2))
  induction m.entries with
  | nil => simp [alterEntries, h]
  | cons e es ih =>
      obtain ⟨k', v⟩ := e
      rw [alterEntries, List.map_cons, alterEntries]
      split
      · rw [List.map_cons, h]
        rfl
      · rw [List.map_cons, ih]

/-- Writing what is there already changes nothing. -/
theorem alter_eq_self {m : OrderedMap κ ν} {k : κ} {v : ν} {f : Option ν → ν}
    (hk : m.get? k = some v) (hf : f (some v) = v) : m.alter k f = m := by
  refine ext_entries ?_
  show alterEntries k f m.entries = m.entries
  rw [get?] at hk
  generalize m.entries = es at hk ⊢
  induction es with
  | nil => cases hk
  | cons e es ih =>
      obtain ⟨k', v'⟩ := e
      rw [alterEntries]
      rw [List.find?_cons] at hk
      split
      · next hsame =>
          rw [hsame] at hk
          obtain rfl : v' = v := Option.some.inj hk
          rw [hf]
      · next hother =>
          rw [Bool.eq_false_iff.mpr hother] at hk
          rw [ih hk]

/-- Only what is made of the value under the key counts. -/
theorem alter_congr {m : OrderedMap κ ν} {k : κ} {f g : Option ν → ν}
    (h : f (m.get? k) = g (m.get? k)) : m.alter k f = m.alter k g := by
  refine ext_entries ?_
  show alterEntries k f m.entries = alterEntries k g m.entries
  rw [get?] at h
  generalize m.entries = es at h ⊢
  induction es with
  | nil => exact congrArg (fun v => [(k, v)]) h
  | cons e es ih =>
      obtain ⟨k', v⟩ := e
      rw [List.find?_cons] at h
      rw [alterEntries, alterEntries]
      split
      · next hsame =>
          rw [hsame] at h
          exact congrArg (fun v => (k', v) :: es) h
      · next hother =>
          rw [Bool.eq_false_iff.mpr hother] at h
          rw [ih h]

end OrderedMap

/-! ## Sets of names -/

/-- A set of names under each name, all in the order in which they came. -/
abbrev NameSets := OrderedMap ChunkName (List ChunkName)

namespace NameSets

/-- The set under a name; a name without one has the empty set. -/
def under (m : NameSets) (name : ChunkName) : List ChunkName :=
  (m.get? name).getD []

/-- The map with a set under the name, if there was none. -/
def touch (m : NameSets) (name : ChunkName) : NameSets :=
  if m.contains name then m else m.insert name []

/-- The map with one member more in the set under the name, if there is such a set. -/
def gain (m : NameSets) (name member : ChunkName) : NameSets :=
  if m.contains name then m.alter name fun set => addNew (set.getD []) member else m

theorem touch_eq_alter (m : NameSets) (name : ChunkName) :
    m.touch name = m.alter name fun set => set.getD [] := by
  rw [touch]
  split
  · next hmem =>
      obtain ⟨set, hset⟩ := OrderedMap.mem_keys_iff.mp (OrderedMap.contains_iff_mem_keys.mp hmem)
      exact (OrderedMap.alter_eq_self hset rfl).symm
  · next hmem =>
      have hnone : m.get? name = none :=
        OrderedMap.get?_eq_none_iff.mpr fun hk => hmem (OrderedMap.contains_iff_mem_keys.mpr hk)
      refine OrderedMap.alter_congr ?_
      rw [hnone]
      rfl

theorem touch_of_mem {m : NameSets} {name : ChunkName} (h : name ∈ m.keys) :
    m.touch name = m := by
  rw [touch, if_pos (OrderedMap.contains_iff_mem_keys.mpr h)]

theorem gain_of_mem {m : NameSets} {name : ChunkName} (h : name ∈ m.keys) (member : ChunkName) :
    m.gain name member = m.alter name fun set => addNew (set.getD []) member := by
  rw [gain, if_pos (OrderedMap.contains_iff_mem_keys.mpr h)]

theorem keys_touch (m : NameSets) (name : ChunkName) : (m.touch name).keys = addNew m.keys name := by
  rw [touch_eq_alter, OrderedMap.keys_alter]

/-- Both ends of an edge have a set once they are touched. -/
theorem mem_keys_touch_touch (m : NameSets) (parent child : ChunkName) :
    parent ∈ ((m.touch parent).touch child).keys ∧
      child ∈ ((m.touch parent).touch child).keys := by
  rw [keys_touch, keys_touch, mem_addNew, mem_addNew, mem_addNew]
  exact ⟨Or.inl (Or.inr rfl), Or.inr rfl⟩

end NameSets

/-- The children by name and the parents by name of one lattice. -/
structure Mirrored (children parents : NameSets) : Prop where
  /-- Both have the same names, in the same order, -/
  keys : children.keys = parents.keys
  /-- and none of them twice. -/
  distinct : children.keys.Nodup
  children_mem : ∀ a, ∀ b ∈ children.under a, b ∈ children.keys
  parents_mem : ∀ b, ∀ a ∈ parents.under b, a ∈ parents.keys
  children_nodup : ∀ name, (children.under name).Nodup
  parents_nodup : ∀ name, (parents.under name).Nodup
  /-- Both tell the same edges. -/
  mirror : ∀ a b, b ∈ children.under a ↔ a ∈ parents.under b

namespace Addition

/-- What an addition does to the children by name. -/
def onChildren (a : Addition) (m : NameSets) : NameSets :=
  match a with
  | .name added => m.touch added
  | .edge parent child => ((m.touch parent).touch child).gain parent child

/-- What an addition does to the parents by name. -/
def onParents (a : Addition) (m : NameSets) : NameSets :=
  match a with
  | .name added => m.touch added
  | .edge parent child => ((m.touch parent).touch child).gain child parent

end Addition

namespace ChunkTable

/-- All names as the table mentions them, each chunk before what it refers to. -/
def mentions (t : ChunkTable) : List ChunkName :=
  t.entries.flatMap fun e => e.1 :: e.2.references

/-- Whether no line of the table refers to the name. -/
def unreferenced (t : ChunkTable) (name : ChunkName) : Bool :=
  t.entries.all fun e => !e.2.references.contains name

end ChunkTable

namespace Lattice

variable {l : Lattice}

/-! ## The lattice as two maps -/

/-- The children by name, as the lattice shows them. -/
def childrenOf (l : Lattice) : NameSets :=
  l.nodes.mapValues LatticeNode.children

/-- The parents by name, as the lattice shows them. -/
def parentsOf (l : Lattice) : NameSets :=
  l.nodes.mapValues LatticeNode.parents

theorem keys_childrenOf (l : Lattice) : l.childrenOf.keys = l.names :=
  OrderedMap.keys_mapValues _ _

theorem keys_parentsOf (l : Lattice) : l.parentsOf.keys = l.names :=
  OrderedMap.keys_mapValues _ _

theorem under_childrenOf (l : Lattice) (name : ChunkName) :
    l.childrenOf.under name = l.children name := by
  rw [NameSets.under, childrenOf, OrderedMap.get?_mapValues, children]
  cases l.nodes.get? name <;> rfl

theorem under_parentsOf (l : Lattice) (name : ChunkName) :
    l.parentsOf.under name = l.parents name := by
  rw [NameSets.under, parentsOf, OrderedMap.get?_mapValues, parents]
  cases l.nodes.get? name <;> rfl

theorem childrenOf_addName (l : Lattice) (name : ChunkName) :
    (l.addName name).childrenOf = l.childrenOf.touch name := by
  rw [NameSets.touch_eq_alter]
  refine OrderedMap.mapValues_alter ?_ l.nodes name
  rintro (_ | node) <;> rfl

theorem parentsOf_addName (l : Lattice) (name : ChunkName) :
    (l.addName name).parentsOf = l.parentsOf.touch name := by
  rw [NameSets.touch_eq_alter]
  refine OrderedMap.mapValues_alter ?_ l.nodes name
  rintro (_ | node) <;> rfl

/-- Both ends of an edge are touched in either map, and one of them gains a member. -/
theorem childrenOf_addEdge (l : Lattice) (parent child : ChunkName) :
    (l.addEdge parent child).childrenOf
      = ((l.childrenOf.touch parent).touch child).gain parent child := by
  obtain ⟨hparent, hmem⟩ := l.childrenOf.mem_keys_touch_touch parent child
  have hchild : child ∈ (((l.childrenOf.touch parent).touch child).gain parent child).keys := by
    rw [NameSets.gain_of_mem hparent, OrderedMap.keys_alter]
    exact mem_addNew.mpr (Or.inl hmem)
  -- the change of the child's parents does not show among the children
  rw [← NameSets.touch_of_mem hchild, NameSets.touch_eq_alter, NameSets.gain_of_mem hparent,
    ← childrenOf_addName, ← childrenOf_addName]
  refine (OrderedMap.mapValues_alter ?_ _ child).trans
    (congrArg (fun m => OrderedMap.alter m _ _) (OrderedMap.mapValues_alter ?_ _ parent))
  · rintro (_ | node) <;> rfl
  · rintro (_ | node) <;> rfl

theorem parentsOf_addEdge (l : Lattice) (parent child : ChunkName) :
    (l.addEdge parent child).parentsOf
      = ((l.parentsOf.touch parent).touch child).gain child parent := by
  obtain ⟨hparent, hchild⟩ := l.parentsOf.mem_keys_touch_touch parent child
  -- nor does the change of the parent's children among the parents
  rw [NameSets.gain_of_mem hchild, ← NameSets.touch_of_mem hparent,
    NameSets.touch_eq_alter _ parent, ← parentsOf_addName, ← parentsOf_addName]
  refine (OrderedMap.mapValues_alter ?_ _ child).trans
    (congrArg (fun m => OrderedMap.alter m _ _) (OrderedMap.mapValues_alter ?_ _ parent))
  · rintro (_ | node) <;> rfl
  · rintro (_ | node) <;> rfl

/-- One addition shows in the children by name as it is made there. -/
theorem childrenOf_extend (l : Lattice) (a : Addition) :
    (a.extend l).childrenOf = a.onChildren l.childrenOf := by
  cases a with
  | name added => exact childrenOf_addName l added
  | edge parent child => exact childrenOf_addEdge l parent child

/-- One addition shows in the parents by name as it is made there. -/
theorem parentsOf_extend (l : Lattice) (a : Addition) :
    (a.extend l).parentsOf = a.onParents l.parentsOf := by
  cases a with
  | name added => exact parentsOf_addName l added
  | edge parent child => exact parentsOf_addEdge l parent child

theorem childrenOf_ofAdditions (as : List Addition) :
    (ofAdditions as).childrenOf = as.foldl (fun m a => a.onChildren m) {} :=
  (List.foldl_hom childrenOf fun l a => (childrenOf_extend l a).symm).symm

theorem parentsOf_ofAdditions (as : List Addition) :
    (ofAdditions as).parentsOf = as.foldl (fun m a => a.onParents m) {} :=
  (List.foldl_hom parentsOf fun l a => (parentsOf_extend l a).symm).symm

/-! ## The mirror -/

/-- In a sound lattice the two maps mirror each other. -/
theorem Sound.mirrored (h : l.Sound) : Mirrored l.childrenOf l.parentsOf where
  keys := (keys_childrenOf l).trans (keys_parentsOf l).symm
  distinct := l.childrenOf.nodup_keys
  children_mem a b hb := by
    rw [under_childrenOf] at hb
    rw [keys_childrenOf]
    exact h.coherent.mem_names hb
  parents_mem b a ha := by
    rw [under_parentsOf] at ha
    rw [keys_parentsOf]
    exact mem_names_of_mem_children ((h.coherent a b).mpr ha)
  children_nodup name := by
    rw [under_childrenOf]
    exact h.children_nodup name
  parents_nodup name := by
    rw [under_parentsOf]
    exact h.parents_nodup name
  mirror a b := by
    rw [under_childrenOf, under_parentsOf]
    exact h.coherent a b

/-! ## The lattice of a table -/

/-- The names come in the order in which the table mentions them first. -/
theorem names_ofTable_eq_eraseDups (t : ChunkTable) : (ofTable t).names = t.mentions.eraseDups := by
  rw [names_ofTable, foldl_addNew, List.nil_append]
  exact congrArg List.eraseDups (List.filter_eq_self.mpr fun _ _ => rfl)

theorem unreferenced_iff {t : ChunkTable} {name : ChunkName} :
    t.unreferenced name = true ↔ ∀ a, ¬ t.Refers a name := by
  simp only [ChunkTable.unreferenced, ChunkTable.refers_iff_mem_references,
    OrderedMap.get?_eq_some_iff, List.all_eq_true, Bool.not_eq_true', List.contains_eq_mem,
    decide_eq_false_iff_not]
  constructor
  · rintro h a ⟨chunk, he, href⟩
    exact h (a, chunk) he href
  · rintro h e he href
    exact h e.1 ⟨e.2, he, href⟩

theorem roots_ofTable_eq_filter_names (t : ChunkTable) :
    (ofTable t).roots = (ofTable t).names.filter t.unreferenced := by
  rw [roots_eq_filter]
  refine List.filter_congr fun name _ => Bool.eq_iff_iff.mpr ?_
  rw [unreferenced_iff, List.isEmpty_iff, List.eq_nil_iff_forall_not_mem]
  simp only [mem_parents_ofTable]

/-- What nothing refers to is mentioned as a key alone. -/
theorem filter_mentions (t : ChunkTable) :
    t.mentions.filter t.unreferenced = t.keys.filter t.unreferenced := by
  have hrefs : ∀ e ∈ t.entries, ∀ name ∈ e.2.references, ¬ t.unreferenced name := by
    intro e he name hname hun
    refine unreferenced_iff.mp hun e.1 (ChunkTable.refers_iff_mem_references.mpr ?_)
    exact ⟨e.2, OrderedMap.get?_eq_some_iff.mpr he, hname⟩
  rw [ChunkTable.mentions, OrderedMap.keys]
  generalize t.unreferenced = p at hrefs ⊢
  generalize t.entries = es at hrefs ⊢
  induction es with
  | nil => rfl
  | cons e es ih =>
      have hnone : e.2.references.filter p = [] :=
        List.filter_eq_nil_iff.mpr (hrefs e List.mem_cons_self)
      have hrest := ih fun e' he' => hrefs e' (List.mem_cons_of_mem e he')
      rw [List.flatMap_cons, List.filter_append, hrest, List.filter_cons, hnone, List.map_cons,
        List.filter_cons]
      split <;> rfl

/-- The roots are the chunks that nothing refers to, in the order of the table. -/
theorem roots_ofTable_eq_filter_keys (t : ChunkTable) :
    (ofTable t).roots = t.keys.filter t.unreferenced := by
  rw [roots_ofTable_eq_filter_names, names_ofTable, filter_foldl_addNew]
  show (t.mentions.filter t.unreferenced).foldl addNew [] = _
  rw [filter_mentions]
  exact foldl_addNew_of_nodup (t.nodup_keys.filter _)

/-- **Two maps kept apart mirror each other.**  After every row of additions, the
    children by name and the parents by name, each changed by insertions of its
    own, have the same names and tell the same edges, and they are the
    lattice.  The lattice of a table has the names that the table mentions, in
    the order in which it mentions them; its edges are the references, its roots
    the chunks that no line refers to. -/
theorem maps_mirror_each_other :
    (∀ as : List Addition,
      let children : NameSets := as.foldl (fun m a => a.onChildren m) {}
      let parents : NameSets := as.foldl (fun m a => a.onParents m) {}
      Mirrored children parents ∧
        (ofAdditions as).names = children.keys ∧
        (∀ name, (ofAdditions as).children name = children.under name) ∧
        (∀ name, (ofAdditions as).parents name = parents.under name) ∧
        (ofAdditions as).roots = parents.keys.filter fun name => (parents.under name).isEmpty) ∧
    ∀ t : ChunkTable,
      ofTable t = ofAdditions t.additions ∧
        (ofTable t).names = t.mentions.eraseDups ∧
        (∀ name, name ∈ (ofTable t).names ↔ name ∈ t.keys ∨ ∃ a, t.Refers a name) ∧
        (∀ a b, b ∈ (ofTable t).children a ↔ t.Refers a b) ∧
        (ofTable t).roots = t.keys.filter t.unreferenced ∧
        (ofTable t).roots = (ofTable t).names.filter t.unreferenced ∧
        ∀ name, t.unreferenced name = true ↔ ∀ a, ¬ t.Refers a name := by
  constructor
  · intro as children parents
    have hchildren : (ofAdditions as).childrenOf = children := childrenOf_ofAdditions as
    have hparents : (ofAdditions as).parentsOf = parents := parentsOf_ofAdditions as
    rw [← hchildren, ← hparents]
    refine ⟨(sound_ofAdditions as).mirrored, (keys_childrenOf _).symm,
      fun name => (under_childrenOf _ name).symm, fun name => (under_parentsOf _ name).symm, ?_⟩
    simp only [roots_eq_filter, keys_parentsOf, under_parentsOf]
  · intro t
    exact ⟨ofTable_eq_ofAdditions t, names_ofTable_eq_eraseDups t, fun _ => mem_names_ofTable,
      fun _ _ => mem_children_ofTable, roots_ofTable_eq_filter_keys t,
      roots_ofTable_eq_filter_names t, fun _ => unreferenced_iff⟩

end Lattice

end Literate
