import Literate.Disk
import Literate.Proofs.Path.Normal

/-! # Where paths lead

    A path is followed from a directory, one component after the other: a name
    goes down, `..` goes up and stays at the root, a dot stays, and the root starts
    afresh (`Place.go`).  Two paths are the same way if they lead to the same place
    from every directory (`Path.SamePlace`).

    * Settling a component and then following is following and then taking the
      component (`Place.foldl_go_settle`), so a path and its normal form are the
      same way (`Path.samePlace_normalize`).
    * A normal path takes some names off the directory and puts its own behind what
      is left (`Path.placeFrom_relative`), or has nothing of the directory in it
      (`Path.placeFrom_absolute`).  Which of the two, how many, and which names
      shows in directories that are deep enough and are the same name all over: one
      such directory cannot tell the names of the path from its own, but two of
      them can (`Path.replicate_append_eq`).

    So paths that are the same way have the same normal form
    (`Path.normalize_eq_iff_samePlace`). -/

namespace Literate

/-- A directory that paths can be followed from. -/
structure Directory where
  place : Place
  named : ∀ t ∈ place, Component.IsName t

/-- The directory of that depth in which every name is the same. -/
def Directory.uniform {t : Text} (h : Component.IsName t) (depth : Nat) : Directory where
  place := List.replicate depth t
  named := fun _ hu => List.eq_of_mem_replicate hu ▸ h

/-- One component further. -/
def Place.go (place : Place) : Component → Place
  | .root => []
  | .here => place
  | .up => place.dropLast
  | .name t => place ++ [t]

/-- The place that a path leads to. -/
def Path.placeFrom (p : Path) (place : Place) : Place :=
  p.components.foldl Place.go place

/-- The same place from every directory. -/
def Path.SamePlace (p q : Path) : Prop :=
  ∀ d : Directory, p.placeFrom d.place = q.placeFrom d.place

/-! ## Following settled components -/

namespace Place

/-- What a component does to settled components it does to the place that they lead to. -/
theorem go_settle (done : List Component) (c : Component) (place : Place) :
    (Path.settle done c).reverse.foldl go place = go (done.reverse.foldl go place) c := by
  have hpush : ∀ c : Component,
      (c :: done).reverse.foldl go place = go (done.reverse.foldl go place) c := by
    intro c
    rw [List.reverse_cons, List.foldl_append]
    rfl
  cases c with
  | root => exact hpush .root
  | here => rfl
  | name t => exact hpush (.name t)
  | up =>
      cases done with
      | nil => exact hpush .up
      | cons top outer =>
          cases top with
          | here => exact hpush .up
          | up => exact hpush .up
          | root =>
              -- both sides are at the root
              show (Component.root :: outer).reverse.foldl go place = _
              rw [List.reverse_cons, List.foldl_append]
              rfl
          | name t =>
              show outer.reverse.foldl go place = _
              rw [List.reverse_cons, List.foldl_append]
              exact List.dropLast_concat.symm

theorem foldl_go_settle (cs done : List Component) (place : Place) :
    (cs.foldl Path.settle done).reverse.foldl go place
      = cs.foldl go (done.reverse.foldl go place) := by
  induction cs generalizing done with
  | nil => rfl
  | cons c cs ih => rw [List.foldl_cons, ih, go_settle, List.foldl_cons]

theorem foldl_go_names (names : List Text) (place : Place) :
    (names.map Component.name).foldl go place = place ++ names := by
  induction names generalizing place with
  | nil => exact (List.append_nil place).symm
  | cons t names ih =>
      rw [List.map_cons, List.foldl_cons, ih, go, List.append_assoc]
      rfl

theorem foldl_go_ups (k : Nat) (place : Place) :
    (List.replicate k Component.up).foldl go place = place.take (place.length - k) := by
  induction k generalizing place with
  | zero => exact List.take_length.symm
  | succ k ih =>
      rw [List.replicate_succ, List.foldl_cons, ih, go, List.dropLast_eq_take, List.take_take,
        List.length_take]
      congr 1
      omega

end Place

namespace Path

/-- A path and its normal form are the same way. -/
theorem samePlace_normalize (p : Path) : p.normalize.SamePlace p := by
  intro d
  rw [placeFrom, components_normalize]
  exact Place.foldl_go_settle p.components [] d.place

/-! ## Telling normal forms apart -/

/-- A relative path goes up, and then down by its names. -/
theorem placeFrom_relative {p : Path} {k : Nat} {names : List Text}
    (h : p.settled.reverse = List.replicate k .up ++ names.map Component.name) (d : Directory) :
    p.placeFrom d.place = d.place.take (d.place.length - k) ++ names := by
  rw [← p.samePlace_normalize d, placeFrom, components_normalize, h, List.foldl_append,
    Place.foldl_go_ups, Place.foldl_go_names]

/-- An absolute path leads to one place from everywhere. -/
theorem placeFrom_absolute {p : Path} {names : List Text}
    (h : p.settled.reverse = .root :: names.map Component.name) (d : Directory) :
    p.placeFrom d.place = names := by
  rw [← p.samePlace_normalize d, placeFrom, components_normalize, h, List.foldl_cons,
    Place.foldl_go_names]
  rfl

/-- Of a directory that has one name all over, a relative path keeps some copies. -/
theorem placeFrom_uniform {p : Path} {k : Nat} {names : List Text}
    (h : p.settled.reverse = List.replicate k .up ++ names.map Component.name) {t : Text}
    (ht : Component.IsName t) (depth : Nat) :
    p.placeFrom (Directory.uniform ht depth).place = List.replicate (depth - k) t ++ names := by
  rw [placeFrom_relative h, Directory.uniform, List.length_replicate, List.take_replicate,
    Nat.min_eq_left (Nat.sub_le depth k)]

theorem isName_singleton {c : Char} (hslash : c ≠ '/') (hdot : c ≠ '.') :
    Component.IsName [c] := by
  constructor
  · simpa [Component.text] using hslash.symm
  · simp [Component.text, Component.ofPart?, hdot]

/-- Names that stand behind copies of every name stand behind none. -/
theorem replicate_append_eq {j : Nat} {names names' : List Text}
    (h : ∀ t, Component.IsName t → List.replicate j t ++ names = names') :
    j = 0 ∧ names = names' := by
  have ha := h ['a'] (isName_singleton (by decide) (by decide))
  have hb := h ['b'] (isName_singleton (by decide) (by decide))
  have hcopies : List.replicate j ['a'] = List.replicate j ['b'] :=
    (List.append_left_inj names).mp (ha.trans hb.symm)
  have hj : j = 0 := by
    cases j with
    | zero => rfl
    | succ j =>
        rw [List.replicate_succ, List.replicate_succ] at hcopies
        exact absurd (List.cons.inj hcopies).1 (by decide)
  subst hj
  exact ⟨rfl, ha⟩

/-- Relative paths that are the same way go up equally far, and down by the same names. -/
theorem relative_of_samePlace {p q : Path} {k m : Nat} {names names' : List Text}
    (hp : p.settled.reverse = List.replicate k .up ++ names.map Component.name)
    (hq : q.settled.reverse = List.replicate m .up ++ names'.map Component.name)
    (h : p.SamePlace q) (hle : k ≤ m) : k = m ∧ names = names' := by
  -- from a directory just as deep as `q` goes up, nothing of it is left on one side
  have hcopies : ∀ t, Component.IsName t → List.replicate (m - k) t ++ names = names' := by
    intro t ht
    have hplace := h (Directory.uniform ht m)
    rw [placeFrom_uniform hp, placeFrom_uniform hq, Nat.sub_self] at hplace
    exact hplace
  obtain ⟨hzero, hnames⟩ := replicate_append_eq hcopies
  exact ⟨by omega, hnames⟩

/-- No relative path leads to one place from everywhere. -/
theorem not_samePlace_absolute {p q : Path} {k : Nat} {names names' : List Text}
    (hp : p.settled.reverse = List.replicate k .up ++ names.map Component.name)
    (hq : q.settled.reverse = .root :: names'.map Component.name) : ¬ p.SamePlace q := by
  intro h
  have ha : Component.IsName ['a'] := isName_singleton (by decide) (by decide)
  have hlow := h (Directory.uniform ha k)
  have hdeep := h (Directory.uniform ha (k + 1))
  rw [placeFrom_uniform hp, placeFrom_absolute hq] at hlow hdeep
  have hlength := congrArg List.length (hlow.trans hdeep.symm)
  rw [List.length_append, List.length_append, List.length_replicate, List.length_replicate]
    at hlength
  omega

theorem SamePlace.symm {p q : Path} (h : p.SamePlace q) : q.SamePlace p :=
  fun d => (h d).symm

theorem SamePlace.trans {p q r : Path} (h : p.SamePlace q) (h' : q.SamePlace r) :
    p.SamePlace r :=
  fun d => (h d).trans (h' d)

/-- The same way settles to the same components. -/
theorem SamePlace.settled_eq {p q : Path} (h : p.SamePlace q) : p.settled = q.settled := by
  rw [← List.reverse_inj]
  have hp := p.settled_settled
  have hq := q.settled_settled
  cases hpa : p.isAbsolute with
  | true =>
      rw [hpa] at hp
      obtain ⟨names, -, hnames⟩ := hp.exists_absolute
      cases hqa : q.isAbsolute with
      | true =>
          rw [hqa] at hq
          obtain ⟨names', -, hnames'⟩ := hq.exists_absolute
          have hplace := h ⟨[], List.forall_mem_nil _⟩
          rw [placeFrom_absolute hnames, placeFrom_absolute hnames'] at hplace
          rw [hnames, hnames', hplace]
      | false =>
          rw [hqa] at hq
          obtain ⟨m, names', -, hnames'⟩ := hq.exists_relative
          exact absurd h.symm (not_samePlace_absolute hnames' hnames)
  | false =>
      rw [hpa] at hp
      obtain ⟨k, names, -, hnames⟩ := hp.exists_relative
      cases hqa : q.isAbsolute with
      | true =>
          rw [hqa] at hq
          obtain ⟨names', -, hnames'⟩ := hq.exists_absolute
          exact absurd h (not_samePlace_absolute hnames hnames')
      | false =>
          rw [hqa] at hq
          obtain ⟨m, names', -, hnames'⟩ := hq.exists_relative
          rcases Nat.le_total k m with hle | hle
          · obtain ⟨rfl, rfl⟩ := relative_of_samePlace hnames hnames' h hle
            rw [hnames, hnames']
          · obtain ⟨rfl, rfl⟩ := relative_of_samePlace hnames' hnames h.symm hle
            rw [hnames, hnames']

/-- **Normal forms are complete.**  Two paths have the same normal form exactly if they lead to the
    same place from every directory. -/
theorem normalize_eq_iff_samePlace {p q : Path} : p.normalize = q.normalize ↔ p.SamePlace q := by
  constructor
  · intro h
    have hp := p.samePlace_normalize.symm
    rw [h] at hp
    exact hp.trans q.samePlace_normalize
  · intro h
    exact normalize_eq_iff.mpr h.settled_eq

end Path

end Literate
