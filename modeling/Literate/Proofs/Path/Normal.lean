import Literate.Proofs.Path.Spelling

/-! # Normal paths

    Normalizing settles the components of a path one after the other.  The
    settled components are names on top of a base, which is the root or a
    number of `..` (`Path.Settled`); each step keeps that shape, and a normal
    path settles to itself (`Path.settled_normalize`), so the components of the
    normal form are the settled ones (`Path.components_normalize`).

    A path joined to a directory settles on top of what the directory has
    settled to (`Path.settled_join`). -/

namespace Literate

namespace Component

/-- A text that names a file or a directory. -/
def IsName (t : Text) : Prop :=
  IsStep (.name t)

theorem isStep_of_mem_names {names : List Text} (h : ∀ t ∈ names, IsName t) :
    ∀ c ∈ names.map Component.name, c.IsStep := by
  intro c hc
  obtain ⟨t, ht, rfl⟩ := List.mem_map.mp hc
  exact h t ht

end Component

namespace Path

open Component

/-- The components of a path, settled, the innermost first. -/
def settled (p : Path) : List Component :=
  p.components.foldl settle []

theorem normalize_eq (p : Path) : p.normalize = ofComponents p.settled.reverse :=
  rfl

/-! ## Settling -/

/-- Names settle on top. -/
theorem foldl_settle_names (names : List Text) (done : List Component) :
    (names.map Component.name).foldl settle done = (names.map Component.name).reverse ++ done := by
  induction names generalizing done with
  | nil => rfl
  | cons t names ih =>
      rw [List.map_cons, List.foldl_cons, ih, List.reverse_cons, List.append_assoc]
      rfl

/-- Going up as often as there are names on top takes them away. -/
theorem foldl_settle_ups (names : List Text) (done : List Component) :
    (List.replicate names.length Component.up).foldl settle (names.map Component.name ++ done)
      = done := by
  induction names with
  | nil => rfl
  | cons t names ih =>
      rw [List.length_cons, List.replicate_succ, List.foldl_cons]
      exact ih

/-- Above the directory that a path starts from there is always one more to go up to. -/
theorem foldl_settle_ups_ups (k m : Nat) :
    (List.replicate m Component.up).foldl settle (List.replicate k .up)
      = List.replicate (k + m) .up := by
  induction m generalizing k with
  | zero => rfl
  | succ m ih =>
      have hstep : settle (List.replicate k .up) .up = List.replicate (k + 1) .up := by
        cases k <;> rfl
      rw [List.replicate_succ, List.foldl_cons, hstep, ih]
      congr 1
      omega

/-- Settled components, the innermost first: names on top of `..`s, or of the root if the
    path is absolute. -/
inductive Settled : Bool → List Component → Prop where
  | relative (names : List Text) (h : ∀ t ∈ names, IsName t) (k : Nat) :
      Settled false (names.map Component.name ++ List.replicate k .up)
  | absolute (names : List Text) (h : ∀ t ∈ names, IsName t) :
      Settled true (names.map Component.name ++ [.root])

/-- One step keeps settled components settled. -/
theorem Settled.step {absolute : Bool} {done : List Component} (h : Settled absolute done)
    {c : Component} (hc : c.IsStep) : Settled absolute (settle done c) := by
  rcases hc.cases with rfl | ⟨t, rfl⟩
  · -- `..` takes the last name away; where there is none, the base decides
    cases h with
    | relative names h k =>
        cases names with
        | nil =>
            have hups : settle (List.replicate k .up) .up = List.replicate (k + 1) .up := by
              cases k <;> rfl
            rw [List.map_nil, List.nil_append, hups]
            exact Settled.relative [] (List.forall_mem_nil _) (k + 1)
        | cons t names => exact Settled.relative names (fun u hu => h u (List.mem_cons_of_mem _ hu)) k
    | absolute names h =>
        cases names with
        | nil => exact Settled.absolute [] (List.forall_mem_nil _)
        | cons t names => exact Settled.absolute names fun u hu => h u (List.mem_cons_of_mem _ hu)
  · have hname : ∀ {names : List Text}, (∀ u ∈ names, IsName u) → ∀ u ∈ t :: names, IsName u := by
      intro names h u hu
      rcases List.mem_cons.mp hu with rfl | hu
      · exact hc
      · exact h u hu
    cases h with
    | relative names h k => exact Settled.relative (t :: names) (hname h) k
    | absolute names h => exact Settled.absolute (t :: names) (hname h)

theorem Settled.foldl {absolute : Bool} {done : List Component} (h : Settled absolute done)
    {cs : List Component} (hcs : ∀ c ∈ cs, c.IsStep) : Settled absolute (cs.foldl settle done) := by
  induction cs generalizing done with
  | nil => exact h
  | cons c cs ih =>
      exact ih (h.step (hcs c List.mem_cons_self)) fun c' hc' => hcs c' (List.mem_cons_of_mem _ hc')

/-- A path settles step by step, from the root if it is absolute. -/
theorem settled_eq (p : Path) :
    p.settled = (steps p.spelling).foldl settle (if p.isAbsolute then [.root] else []) := by
  rw [settled]
  cases h : p.isAbsolute with
  | true =>
      rw [components_of_absolute h]
      rfl
  | false =>
      rw [components_of_relative h]
      split <;> rfl

theorem settled_settled (p : Path) : Settled p.isAbsolute p.settled := by
  rw [settled_eq]
  cases p.isAbsolute with
  | true => exact (Settled.absolute [] (List.forall_mem_nil _)).foldl fun c => isStep_of_mem_steps
  | false => exact (Settled.relative [] (List.forall_mem_nil _) 0).foldl fun c => isStep_of_mem_steps

/-- The root tells the components of absolute paths. -/
theorem Settled.root_mem_iff {absolute : Bool} {done : List Component}
    (h : Settled absolute done) : .root ∈ done ↔ absolute = true := by
  cases h with
  | relative names h k => simp
  | absolute names h => simp

/-- A step takes names away, and no `..`. -/
theorem count_up_le_settle (done : List Component) (c : Component) :
    done.count .up ≤ (settle done c).count .up := by
  cases c with
  | here => exact Nat.le_refl _
  | root => exact List.count_le_count_cons
  | name t => exact List.count_le_count_cons
  | up =>
      cases done with
      | nil => exact Nat.zero_le _
      | cons top done =>
          cases top with
          | name t =>
              have hne : (Component.name t == .up) ≠ true := by simp
              rw [List.count_cons, if_neg hne]
              exact Nat.le_refl _
          | root => exact Nat.le_refl _
          | here => exact List.count_le_count_cons
          | up => exact List.count_le_count_cons

theorem count_up_le_foldl_settle (cs done : List Component) :
    done.count .up ≤ (cs.foldl settle done).count .up := by
  induction cs generalizing done with
  | nil => exact Nat.le_refl _
  | cons c cs ih => exact Nat.le_trans (count_up_le_settle done c) (ih (settle done c))

/-! ## Normal forms -/

theorem Settled.exists_relative {done : List Component} (h : Settled false done) :
    ∃ (k : Nat) (names : List Text), (∀ t ∈ names, IsName t) ∧
      done.reverse = List.replicate k .up ++ names.map Component.name := by
  cases h with
  | relative names h k =>
      refine ⟨k, names.reverse, fun t ht => h t (List.mem_reverse.mp ht), ?_⟩
      rw [List.reverse_append, List.reverse_replicate, List.map_reverse]

theorem Settled.exists_absolute {done : List Component} (h : Settled true done) :
    ∃ names : List Text, (∀ t ∈ names, IsName t) ∧
      done.reverse = .root :: names.map Component.name := by
  cases h with
  | absolute names h =>
      refine ⟨names.reverse, fun t ht => h t (List.mem_reverse.mp ht), ?_⟩
      rw [List.reverse_append, List.map_reverse]
      rfl

theorem isStep_of_mem_relative {names : List Text} (h : ∀ t ∈ names, IsName t) (k : Nat) :
    ∀ c ∈ List.replicate k Component.up ++ names.map Component.name, c.IsStep := by
  intro c hc
  rcases List.mem_append.mp hc with hc | hc
  · rw [(List.mem_replicate.mp hc).2]
    exact isStep_up
  · exact isStep_of_mem_names h c hc

theorem up_notMem_names (names : List Text) : Component.up ∉ names.map Component.name := by
  intro hmem
  obtain ⟨t, -, ht⟩ := List.mem_map.mp hmem
  cases ht

theorem Settled.here_notMem {absolute : Bool} {done : List Component} (h : Settled absolute done) :
    .here ∉ done := by
  cases h with
  | relative names h k => simp
  | absolute names h => simp

/-- In order, `..` stands only in front, and only in a relative path. -/
theorem Settled.up_leads {absolute : Bool} {done before after : List Component}
    (h : Settled absolute done) (hdone : done.reverse = before ++ .up :: after) :
    absolute = false ∧ ∀ c ∈ before, c = .up := by
  cases absolute with
  | false =>
      obtain ⟨k, names, -, hshape⟩ := h.exists_relative
      refine ⟨rfl, ?_⟩
      rcases List.append_eq_append_iff.mp (hshape.symm.trans hdone) with
        ⟨more, -, hnames⟩ | ⟨more, hups, -⟩
      · -- a `..` behind all the others would be a name
        have hmem : Component.up ∈ names.map Component.name := by
          rw [hnames]
          exact List.mem_append_right more List.mem_cons_self
        exact absurd hmem (up_notMem_names names)
      · intro c hc
        refine List.eq_of_mem_replicate (n := k) ?_
        rw [hups]
        exact List.mem_append_left more hc
  | true =>
      obtain ⟨names, -, hshape⟩ := h.exists_absolute
      have hmem : Component.up ∈ Component.root :: names.map Component.name := by
        rw [← hshape, hdone]
        exact List.mem_append_right before List.mem_cons_self
      rcases List.mem_cons.mp hmem with hroot | hname
      · cases hroot
      · exact absurd hname (up_notMem_names names)

/-- Settled components, put in order, are the components of the path they make. -/
theorem Settled.components {absolute : Bool} {done : List Component} (h : Settled absolute done) :
    (ofComponents done.reverse).components = done.reverse := by
  cases absolute with
  | false =>
      obtain ⟨k, names, hnames, hdone⟩ := h.exists_relative
      rw [hdone, components_ofComponents (isStep_of_mem_relative hnames k)]
  | true =>
      obtain ⟨names, hnames, hdone⟩ := h.exists_absolute
      rw [hdone]
      exact components_ofComponents_root [] (isStep_of_mem_names hnames)

/-- Settled components, put in order, settle to themselves. -/
theorem Settled.foldl_reverse {absolute : Bool} {done : List Component}
    (h : Settled absolute done) : done.reverse.foldl settle [] = done := by
  refine List.reverse_inj.mp ?_
  cases absolute with
  | false =>
      obtain ⟨k, names, -, hdone⟩ := h.exists_relative
      have hups : (List.replicate k Component.up).foldl settle [] = List.replicate k .up := by
        have hups := foldl_settle_ups_ups 0 k
        rwa [Nat.zero_add] at hups
      rw [hdone, List.foldl_append, hups, foldl_settle_names, List.reverse_append,
        List.reverse_reverse, List.reverse_replicate]
  | true =>
      obtain ⟨names, -, hdone⟩ := h.exists_absolute
      rw [hdone, List.foldl_cons, foldl_settle_names, List.reverse_append, List.reverse_reverse]
      rfl

theorem components_normalize (p : Path) : p.normalize.components = p.settled.reverse :=
  p.settled_settled.components

theorem settled_normalize (p : Path) : p.normalize.settled = p.settled := by
  rw [settled, components_normalize, p.settled_settled.foldl_reverse]

/-- The normal form starts from where the path starts. -/
theorem isAbsolute_normalize (p : Path) : p.normalize.isAbsolute = p.isAbsolute := by
  have hnormal := p.normalize.settled_settled
  rw [settled_normalize] at hnormal
  rw [Bool.eq_iff_iff, ← hnormal.root_mem_iff, p.settled_settled.root_mem_iff]

/-- A normal path is its own normal form. -/
theorem normalize_normalize (p : Path) : p.normalize.normalize = p.normalize := by
  rw [normalize_eq p.normalize, settled_normalize, normalize_eq]

/-- Paths have the same normal form when they settle to the same components. -/
theorem normalize_eq_iff {p q : Path} : p.normalize = q.normalize ↔ p.settled = q.settled := by
  constructor
  · intro h
    rw [← settled_normalize p, h, settled_normalize]
  · intro h
    rw [normalize_eq, h, normalize_eq]

/-- Normal paths that are the same are spelled the same. -/
theorem eq_of_beq_of_normal {p q : Path} (hp : p.normalize = p) (hq : q.normalize = q)
    (h : (p == q) = true) : p = q := by
  rw [← hp, ← hq, normalize_eq_iff, settled, settled, beq_iff.mp h]

/-- Pages have normal names. -/
theorem normalize_outputName (input rootDir outDir : Path) :
    (outputName input rootDir outDir).normalize = outputName input rootDir outDir := by
  rw [outputName]
  split <;> exact normalize_normalize _

/-- A relative path settles on top of the directory it is joined to. -/
theorem settled_join {p q : Path} (hq : q.isAbsolute = false) :
    (p.join q).settled = (steps q.spelling).foldl settle p.settled := by
  by_cases hp : p.spelling = []
  · have hjoin : p.join q = q := by
      rw [join, hq, hp]
      rfl
    have hnone : p.settled = [] := by
      rw [settled_eq, isAbsolute, hp]
      rfl
    rw [hjoin, hnone, settled_eq, hq, if_neg Bool.false_ne_true]
  · rw [settled, components_join hp hq, List.foldl_append]
    rfl

/-- What a path leads to depends only on what the directory settles to. -/
theorem settled_join_congr {p p' : Path} (h : p.settled = p'.settled) (q : Path) :
    (p.join q).settled = (p'.join q).settled := by
  cases hq : q.isAbsolute with
  | true => rw [join, if_pos hq, join, if_pos hq]
  | false => rw [settled_join hq, settled_join hq, h]

end Path

end Literate
