import Literate.Lattice.Basic

/-!
# Looking for cycles

Cycles are looked for along paths, shortest paths first. The paths wait in a queue. When it is a
path's turn, it goes on to the children of its last name, and the longer paths join the queue at its
end. A child that is on the path already ends the search with the cycle that it closes. All names
that the search comes to are kept.

The search starts from the roots. If no root leads to a cycle, a second one starts from the names
that the first did not come to.

A path repeats no name, so only so many paths go on from it (`onward`). Every turn takes one of the
paths that are still to come, and so the search ends.
-/

namespace Literate

namespace Lattice

/-! ## Paths -/

/-- The names from the first occurrence of `name` on a path, and `name` once more. -/
def closing (path : List ChunkName) (name : ChunkName) : List ChunkName :=
  path.dropWhile (· != name) ++ [name]

/-- The children of the last name on a path whose names are given backwards. -/
def ahead (l : Lattice) (back : List ChunkName) : List ChunkName :=
  match back with
  | name :: _ => l.children name
  | [] => []

/-- The children to which a path can go on without repetition. -/
def fresh (l : Lattice) (back : List ChunkName) : List ChunkName :=
  (l.ahead back).filter fun name => !back.contains name

/-- Number of names that are not on a path, and one more if the path has children ahead. -/
def rank (l : Lattice) (back : List ChunkName) : Nat :=
  (l.names.filter fun name => !back.contains name).length + min 1 (l.ahead back).length

/-- A path that goes on has fewer names left, or comes to a name without children. -/
theorem rank_lt {l : Lattice} {back : List ChunkName} {child : ChunkName}
    (h : child ∈ l.fresh back) : l.rank (child :: back) < l.rank back := by
  obtain ⟨hahead, hnew⟩ := List.mem_filter.1 h
  have hmono : ∀ name : ChunkName,
      (!(child :: back).contains name) = true → (!back.contains name) = true := by
    intro name hname
    simp only [List.contains_cons, Bool.not_or, Bool.and_eq_true] at hname
    exact hname.2
  have hpos := List.length_pos_of_mem hahead
  rw [rank, rank]
  by_cases hname : child ∈ l.names
  · have hlt := length_filter_lt hmono hname hnew (by simp)
    omega
  · have hnone : l.ahead (child :: back) = [] := by
      rw [List.eq_nil_iff_forall_not_mem]
      exact fun name hmem => hname (mem_names_of_mem_children hmem)
    have hle := length_filter_le l.names hmono
    rw [hnone, List.length_nil]
    omega

/-- A path, and all paths that go on from it without repetition. -/
def onward (l : Lattice) (back : List ChunkName) : List (List ChunkName) :=
  back :: (l.fresh back).attach.flatMap fun child => l.onward (child.1 :: back)
  termination_by l.rank back
  decreasing_by exact rank_lt child.2

theorem onward_eq (l : Lattice) (back : List ChunkName) :
    l.onward back = back :: ((l.fresh back).map (· :: back)).flatMap l.onward := by
  rw [onward, List.flatMap_map]
  conv => rhs; rw [← List.attach_map_subtype_val (l.fresh back), List.flatMap_map]

/-! ## The queue -/

/-- A search under way. -/
structure Search where
  /-- The paths that wait for their turn, each one backwards. -/
  paths : Std.Queue (List ChunkName)
  /-- The names that the search has come to. -/
  reached : List ChunkName

namespace Search

/-- The paths in the order of their turns. -/
def waiting (s : Search) : List (List ChunkName) :=
  s.paths.dList ++ s.paths.eList.reverse

/-- A search from names, after others have been reached. -/
def start (seeds reached : List ChunkName) : Search where
  paths := seeds.foldl (fun paths seed => paths.enqueue [seed]) .empty
  reached := seeds.foldl addNew reached

/-- The path whose turn it is, and the search without it. -/
def next? (s : Search) : Option (List ChunkName × Search) :=
  s.paths.dequeue?.map fun next => (next.1, { s with paths := next.2 })

/-- A path meets a child of its last name: it closes a cycle, or goes on to the child. -/
def meet (back : List ChunkName) (s : Search) (child : ChunkName) :
    Except (List ChunkName) Search :=
  if back.contains child then .error (closing back.reverse child)
  else .ok ⟨s.paths.enqueue (child :: back), addNew s.reached child⟩

/-- A path meets names one after the other. -/
def meetAll (back : List ChunkName) (s : Search) (children : List ChunkName) :
    Except (List ChunkName) Search :=
  children.foldlM (meet back) s

theorem waiting_start (seeds reached : List ChunkName) :
    (start seeds reached).waiting = seeds.map ([·]) := by
  have hqueue (paths : Std.Queue (List ChunkName)) :
      (seeds.foldl (fun paths seed => paths.enqueue [seed]) paths).dList
          ++ (seeds.foldl (fun paths seed => paths.enqueue [seed]) paths).eList.reverse
        = paths.dList ++ paths.eList.reverse ++ seeds.map ([·]) := by
    induction seeds generalizing paths with
    | nil => simp
    | cons seed seeds ih => rw [List.foldl_cons, ih]; simp [Std.Queue.enqueue]
  exact hqueue .empty

theorem waiting_of_next?_eq_none {s : Search} (h : s.next? = none) : s.waiting = [] := by
  rw [next?, Option.map_eq_none_iff, Std.Queue.dequeue?] at h
  split at h
  · cases h
  · next hd =>
    split at h
    · next he => rw [waiting, hd, he]; rfl
    · cases h

theorem waiting_of_next?_eq_some {s rest : Search} {back : List ChunkName}
    (h : s.next? = some (back, rest)) :
    s.waiting = back :: rest.waiting ∧ rest.reached = s.reached := by
  obtain ⟨next, hnext, heq⟩ := Option.map_eq_some_iff.1 h
  cases heq
  refine ⟨?_, rfl⟩
  unfold Std.Queue.dequeue? at hnext
  split at hnext
  · next hd => cases hnext; simp [waiting, hd]
  · next hd =>
    split at hnext
    · cases hnext
    · next he => cases hnext; simp [waiting, hd, he]

/-- A path that closes no cycle goes on to all the names that it meets. -/
theorem meetAll_eq_ok {back children : List ChunkName} {s s' : Search}
    (h : meetAll back s children = .ok s') :
    (∀ child ∈ children, child ∉ back) ∧
      s'.waiting = s.waiting ++ children.map (· :: back) ∧
      s'.reached = children.foldl addNew s.reached := by
  rw [meetAll] at h
  induction children generalizing s with
  | nil =>
    cases h
    simp
  | cons child children ih =>
    rw [List.foldlM_cons, meet] at h
    split at h
    · cases h
    · next hchild =>
      obtain ⟨hnew, hwaiting, hreached⟩ := ih h
      refine ⟨?_, ?_, hreached⟩
      · intro name hname
        rcases List.mem_cons.1 hname with rfl | hname
        · exact fun hmem => hchild (List.contains_iff_mem.2 hmem)
        · exact hnew name hname
      · rw [hwaiting]
        simp [waiting, Std.Queue.enqueue]

/-- The first name on the path is the one that closes a cycle. -/
theorem meetAll_eq_error {back children names : List ChunkName} {s : Search}
    (h : meetAll back s children = .error names) :
    ∃ before child after, children = before ++ child :: after ∧ (∀ name ∈ before, name ∉ back) ∧
      child ∈ back ∧ names = closing back.reverse child := by
  rw [meetAll] at h
  induction children generalizing s with
  | nil => cases h
  | cons child children ih =>
    rw [List.foldlM_cons, meet] at h
    split at h
    · next hchild =>
      cases h
      exact ⟨[], child, children, rfl, by simp, List.contains_iff_mem.1 hchild, rfl⟩
    · next hchild =>
      obtain ⟨before, again, after, rfl, hbefore, hagain, hnames⟩ := ih h
      refine ⟨child :: before, again, after, rfl, ?_, hagain, hnames⟩
      intro name hname
      rcases List.mem_cons.1 hname with rfl | hname
      · exact fun hmem => hchild (List.contains_iff_mem.2 hmem)
      · exact hbefore name hname

/-- Number of paths that can still get a turn: those that wait, and all that go on from them. -/
def turns (l : Lattice) (s : Search) : Nat :=
  (s.waiting.flatMap l.onward).length

/-- With every turn there is one less to come. -/
theorem turns_lt {l : Lattice} {s rest s' : Search} {back : List ChunkName}
    (hnext : s.next? = some (back, rest)) (hmeet : meetAll back rest (l.ahead back) = .ok s') :
    s'.turns l < s.turns l := by
  obtain ⟨hwaiting, -⟩ := waiting_of_next?_eq_some hnext
  obtain ⟨hnew, hwaiting', -⟩ := meetAll_eq_ok hmeet
  have hfresh : l.fresh back = l.ahead back :=
    List.filter_eq_self.2 fun child hchild => by simpa using hnew child hchild
  rw [turns, turns, hwaiting, hwaiting', List.flatMap_append, List.flatMap_cons, onward_eq, hfresh,
    List.length_append, List.length_append, List.length_cons]
  omega

end Search

/-! ## The search -/

/-- Gives the paths of a search their turns. A cycle that one closes ends it; otherwise it ends with
the names that it has come to. -/
def search (l : Lattice) (s : Search) : Except (List ChunkName) (List ChunkName) :=
  match _hnext : s.next? with
  | none => .ok s.reached
  | some (back, rest) =>
    match _hmeet : Search.meetAll back rest (l.ahead back) with
    | .error names => .error names
    | .ok s => l.search s
  termination_by s.turns l
  decreasing_by exact Search.turns_lt _hnext _hmeet

/-- The names that a search has not come to, in their order. -/
def unreached (l : Lattice) (reached : List ChunkName) : List ChunkName :=
  l.names.filter fun name => !reached.contains name

/-- A cycle of the lattice: one that a root leads to, or else one among the names that no root leads
to. -/
def findCycle? (l : Lattice) : Option (List ChunkName) :=
  match l.search (.start l.roots []) with
  | .error names => some names
  | .ok reached =>
    match l.search (.start (l.unreached reached) reached) with
    | .error names => some names
    | .ok _ => none

end Lattice

end Literate
