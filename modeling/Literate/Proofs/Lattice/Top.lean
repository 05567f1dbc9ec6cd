import Literate.Proofs.Lattice.Cycle

/-! # The way up to a root

    From a name the lattice is climbed through first parents, and the climb
    stops at a name without parents or at the first name that comes up again.

    * The climb ends, in whatever lattice: it stands on no name twice, and every
      name it leaves is one of the lattice (`Lattice.exists_climbs`).  What
      follows is said about the rounds of a climb (`Climbs`), without the
      measure that bounds them.
    * Each round goes from a child to a parent, so where the climb ends leads
      back to where it began (`Climbs.reflTransGen`).
    * A name that comes up again leads to itself.  So without a cycle the climb
      ends at a root (`Climbs.parents_eq_nil`, `topOf_mem_roots`). -/

namespace Literate

namespace Lattice

open Relation

variable {l : Lattice}

/-- The rounds of a climb from `current`, when it has stood on the names `seen`, up to
    the name that it ends at. -/
inductive Climbs (l : Lattice) : Nat → List ChunkName → ChunkName → ChunkName → Prop where
  | again {seen : List ChunkName} {current : ChunkName} :
      current ∈ seen → Climbs l 0 seen current current
  | top {seen : List ChunkName} {current : ChunkName} :
      current ∉ seen → l.parents current = [] → Climbs l 1 seen current current
  | up {rounds : Nat} {seen parents : List ChunkName} {current parent last : ChunkName} :
      current ∉ seen → l.parents current = parent :: parents →
      Climbs l rounds (current :: seen) parent last → Climbs l (rounds + 1) seen current last

/-- The climb ends where the lattice says, after as many rounds as there are names left
    and one at most. -/
theorem exists_climbs (l : Lattice) (seen : List ChunkName) (current : ChunkName) :
    ∃ rounds ≤ (l.names.filter fun n => !seen.contains n).length + 1,
      l.Climbs rounds seen current (l.climb seen current) := by
  induction seen, current using climb.induct l with
  | case1 seen current hseen =>
      refine ⟨0, Nat.zero_le _, ?_⟩
      rw [climb, dif_pos hseen]
      exact Climbs.again (List.contains_iff_mem.mp hseen)
  | case2 seen current hseen hparents =>
      refine ⟨1, Nat.le_add_left _ _, ?_⟩
      have hnew : current ∉ seen := fun hmem => hseen (List.contains_iff_mem.mpr hmem)
      have hend : l.climb seen current = current := by
        rw [climb, dif_neg hseen]
        split
        · rfl
        · next parent parents hp => rw [hparents] at hp; cases hp
      rw [hend]
      exact Climbs.top hnew hparents
  | case3 seen current hseen parent parents hparents ih =>
      obtain ⟨rounds, hle, hclimbs⟩ := ih
      have hnew : current ∉ seen := fun hmem => hseen (List.contains_iff_mem.mpr hmem)
      have hgoes : l.climb seen current = l.climb (current :: seen) parent := by
        rw [climb, dif_neg hseen]
        split
        · next hp => rw [hparents] at hp; cases hp
        · next parent' parents' hp =>
            rw [hparents] at hp
            obtain ⟨rfl, -⟩ := List.cons.inj hp
            rfl
      have hname : current ∈ l.names :=
        mem_names_of_mem_parents (hparents ▸ List.mem_cons_self)
      have hfewer : (l.names.filter fun n => !(current :: seen).contains n).length
          < (l.names.filter fun n => !seen.contains n).length := by
        refine length_filter_lt ?_ hname (by simpa using hnew) (by simp)
        intro n hn
        simp only [List.contains_cons, Bool.not_or, Bool.and_eq_true] at hn
        exact hn.2
      refine ⟨rounds + 1, by omega, ?_⟩
      rw [hgoes]
      exact Climbs.up hnew hparents hclimbs

/-- The climb to the top of a name. -/
theorem exists_climbs_topOf (l : Lattice) (name : ChunkName) :
    ∃ rounds ≤ l.names.length + 1, l.Climbs rounds [] name (l.topOf name) := by
  obtain ⟨rounds, hle, hclimbs⟩ := l.exists_climbs [] name
  exact ⟨rounds, hle.trans (Nat.succ_le_succ (List.length_filter_le _ _)), hclimbs⟩

theorem Coherent.child_of_parents (h : l.Coherent) {current parent : ChunkName}
    {parents : List ChunkName} (hparents : l.parents current = parent :: parents) :
    l.Child parent current :=
  (h parent current).mpr (hparents ▸ List.mem_cons_self)

namespace Climbs

variable {rounds : Nat} {seen : List ChunkName} {current last : ChunkName}

/-- The end of a climb leads down to its beginning. -/
theorem reflTransGen (hl : l.Coherent) (h : l.Climbs rounds seen current last) :
    ReflTransGen l.Child last current := by
  induction h with
  | again _ => exact ReflTransGen.refl
  | top _ _ => exact ReflTransGen.refl
  | up _ hparents _ ih => exact ih.tail (hl.child_of_parents hparents)

/-- A climb does not leave the names of the lattice. -/
theorem mem_names (hl : l.Coherent) (h : l.Climbs rounds seen current last)
    (hname : current ∈ l.names) : last ∈ l.names := by
  induction h with
  | again _ => exact hname
  | top _ _ => exact hname
  | up _ hparents _ ih => exact ih (mem_names_of_mem_children (hl.child_of_parents hparents))

/-- Without a cycle a climb ends at a name without parents, since all names that it has
    stood on are below the one that it stands on. -/
theorem parents_eq_nil (hl : l.Coherent) (hac : ∀ a, ¬ TransGen l.Child a a)
    (h : l.Climbs rounds seen current last) (hbelow : ∀ a ∈ seen, TransGen l.Child current a) :
    l.parents last = [] := by
  induction h with
  | again hmem => exact absurd (hbelow _ hmem) (hac _)
  | top _ hparents => exact hparents
  | @up rounds seen parents current parent last _ hparents _ ih =>
      have hchild : l.Child parent current := hl.child_of_parents hparents
      refine ih ?_
      intro a ha
      rcases List.mem_cons.mp ha with rfl | ha
      · exact TransGen.single hchild
      · exact (hbelow a ha).head hchild

end Climbs

theorem reflTransGen_topOf (hl : l.Coherent) (name : ChunkName) :
    ReflTransGen l.Child (l.topOf name) name := by
  obtain ⟨rounds, -, hclimbs⟩ := l.exists_climbs_topOf name
  exact hclimbs.reflTransGen hl

/-- Without a cycle every name has a root at its top. -/
theorem topOf_mem_roots (hl : l.Coherent) (hac : ∀ a, ¬ TransGen l.Child a a)
    {name : ChunkName} (hname : name ∈ l.names) : l.topOf name ∈ l.roots := by
  obtain ⟨rounds, -, hclimbs⟩ := l.exists_climbs_topOf name
  rw [roots_eq_filter, List.mem_filter, List.isEmpty_iff]
  exact ⟨hclimbs.mem_names hl hname,
    hclimbs.parents_eq_nil hl hac fun a ha => absurd ha List.not_mem_nil⟩

end Lattice

end Literate
