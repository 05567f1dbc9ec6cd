import Literate.Proofs.Path.Normal

/-! # Relative paths lead where they can

    A relative path goes up out of what two places do not share and then down
    (`Path.route`).  Followed from where it starts, it takes the names away that
    it goes up from and puts those of the target in their place
    (`Path.foldl_route_names`), so it arrives whenever both places are counted
    from the root, or from directories of which the target's is at least as far
    up (`Path.foldl_route_absolute`, `Path.foldl_route_relative`).

    The two cases together say exactly which links resolve
    (`Path.normalize_join_toLink_iff`).

    Else there is no way by spelling alone: the names of the directories that a
    `..` leaves behind are not known, and neither is what lies above them.  So a
    link resolves whenever any path does (`Path.normalize_join_toLink_of_way`), and
    so does the relative path that it spells (`Path.settled_join_link`). -/

namespace Literate.Path

open Component

/-- The steps from one place to another. -/
def route (source goal : List Component) : List Component :=
  List.replicate (source.length - commonLength source goal) .up
    ++ goal.drop (commonLength source goal)

theorem relativeTo_eq (dir target : Path) :
    relativeTo dir target = ofComponents (route dir.settled.reverse target.settled.reverse) := by
  rw [relativeTo, components_normalize, components_normalize]
  rfl

/-- What two places share does not show in the route. -/
theorem route_append (shared source goal : List Component) :
    route (shared ++ source) (shared ++ goal) = route source goal := by
  induction shared with
  | nil => rfl
  | cons c shared ih =>
      have hcommon : commonLength (c :: (shared ++ source)) (c :: (shared ++ goal))
          = commonLength (shared ++ source) (shared ++ goal) + 1 := by
        rw [commonLength, if_pos rfl]
      rw [← ih, List.cons_append, List.cons_append, route, hcommon, List.length_cons,
        List.drop_succ_cons, Nat.add_sub_add_right]
      rfl

theorem route_of_commonLength_eq_zero {source goal : List Component}
    (h : commonLength source goal = 0) :
    route source goal = List.replicate source.length .up ++ goal := by
  rw [route, h]
  rfl

/-- Where places differ in their first component, they share nothing. -/
theorem commonLength_eq_zero {source goal : List Component}
    (h : ∀ c, source.head? = some c → goal.head? ≠ some c) : commonLength source goal = 0 := by
  cases source with
  | nil => rfl
  | cons a source =>
      cases goal with
      | nil => rfl
      | cons b goal =>
          rw [commonLength, if_neg]
          rintro rfl
          exact h a rfl rfl

/-! ## Following a route -/

/-- The way up takes the names of the source away, and the rest starts from what is left. -/
theorem foldl_route_names (base : List Component) {names : List Text} {rest : List Component}
    (h : commonLength (names.map Component.name) rest = 0) :
    (route (base ++ names.map Component.name) (base ++ rest)).foldl settle
        (base ++ names.map Component.name).reverse
      = rest.foldl settle base.reverse := by
  have hups := foldl_settle_ups names.reverse base.reverse
  rw [List.length_reverse, List.map_reverse, ← List.reverse_append] at hups
  rw [route_append, route_of_commonLength_eq_zero h, List.length_map, List.foldl_append, hups]

/-- Between places below one base, the route arrives. -/
theorem foldl_route_base (base : List Component) (names names' : List Text) :
    (route (base ++ names.map Component.name) (base ++ names'.map Component.name)).foldl settle
        (base ++ names.map Component.name).reverse
      = (base ++ names'.map Component.name).reverse := by
  have harrive : ∀ base : List Component, (names'.map Component.name).foldl settle base.reverse
      = (base ++ names'.map Component.name).reverse := by
    intro base
    rw [foldl_settle_names, List.reverse_append]
  induction names generalizing base names' with
  | nil => rw [foldl_route_names base rfl, harrive]
  | cons t names ih =>
      cases names' with
      | nil => rw [foldl_route_names base rfl, harrive]
      | cons t' names' =>
          by_cases ht : t = t'
          · -- one more name is shared
            subst ht
            have hmove : ∀ us : List Text, base ++ (t :: us).map Component.name
                = (base ++ [Component.name t]) ++ us.map Component.name := by
              intro us
              rw [List.map_cons, List.append_assoc]
              rfl
            rw [hmove, hmove]
            refine ih _ names' fun base => ?_
            rw [foldl_settle_names, List.reverse_append]
          · rw [foldl_route_names base, harrive]
            refine commonLength_eq_zero fun c hc hc' => ht ?_
            have heq : Component.name t = .name t' :=
              (Option.some.inj hc).trans (Option.some.inj hc').symm
            exact Component.name.inj heq

theorem foldl_route_absolute (names names' : List Text) :
    (route (.root :: names.map Component.name) (.root :: names'.map Component.name)).foldl settle
        (.root :: names.map Component.name : List Component).reverse
      = (.root :: names'.map Component.name : List Component).reverse :=
  foldl_route_base [.root] names names'

/-- Between places that start from directories above, the route arrives if the target's is
    at least as far up. -/
theorem foldl_route_relative {k m : Nat} (h : k ≤ m) (names names' : List Text) :
    (route (List.replicate k .up ++ names.map Component.name)
        (List.replicate m .up ++ names'.map Component.name)).foldl settle
        (List.replicate k Component.up ++ names.map Component.name).reverse
      = (List.replicate m Component.up ++ names'.map Component.name).reverse := by
  rcases Nat.eq_or_lt_of_le h with rfl | hlt
  · exact foldl_route_base _ names names'
  · obtain ⟨j, rfl⟩ := Nat.exists_eq_add_of_lt hlt
    have hsplit : List.replicate (k + j + 1) Component.up ++ names'.map Component.name
        = List.replicate k .up ++ (List.replicate (j + 1) .up ++ names'.map Component.name) := by
      rw [← List.append_assoc, List.replicate_append_replicate, Nat.add_assoc]
    have hcommon : commonLength (names.map Component.name)
        (List.replicate (j + 1) .up ++ names'.map Component.name) = 0 := by
      cases names <;> rfl
    conv => lhs; rw [hsplit, foldl_route_names _ hcommon]
    rw [List.reverse_replicate, List.foldl_append, foldl_settle_ups_ups, foldl_settle_names,
      List.reverse_append, List.reverse_replicate, Nat.add_assoc]

/-! ## Links -/

theorem isStep_of_mem_route {source goal : List Component} (h : ∀ c ∈ goal, c.IsStep) :
    ∀ c ∈ route source goal, c.IsStep := by
  intro c hc
  rcases List.mem_append.mp hc with hc | hc
  · rw [(List.mem_replicate.mp hc).2]
    exact isStep_up
  · exact h c (List.mem_of_mem_drop hc)

/-- A link of steps is followed step by step. -/
theorem settled_join_toLink {dir target : Path}
    (h : ∀ c ∈ route dir.settled.reverse target.settled.reverse, c.IsStep) :
    (dir.join ⟨(relativeTo dir target).toLink⟩).settled
      = (route dir.settled.reverse target.settled.reverse).foldl settle dir.settled := by
  have hcomponents : (relativeTo dir target).components
      = route dir.settled.reverse target.settled.reverse := by
    rw [relativeTo_eq, components_ofComponents h]
  rw [← hcomponents] at h
  obtain ⟨hrelative, hsteps⟩ := components_toLink h
  rw [settled_join hrelative, hsteps, hcomponents]

/-- A link that goes back to the root is followed from there. -/
theorem settled_join_toLink_root {dir target : Path} {before cs : List Component}
    (hroute : route dir.settled.reverse target.settled.reverse = before ++ .root :: cs)
    (h : ∀ c ∈ cs, c.IsStep) :
    (dir.join ⟨(relativeTo dir target).toLink⟩).settled = cs.foldl settle [.root] := by
  have hcomponents : (relativeTo dir target).components = .root :: cs := by
    rw [relativeTo_eq, hroute, components_ofComponents_root before h]
  obtain ⟨habsolute, hlink⟩ := components_toLink_root hcomponents h
  rw [join, if_pos habsolute, settled, hlink, hcomponents]
  rfl

theorem count_up_relative (k : Nat) (names : List Text) :
    (List.replicate k Component.up ++ names.map Component.name).count .up = k := by
  have hnames : (names.map Component.name).count Component.up = 0 :=
    List.count_eq_zero.mpr (up_notMem_names names)
  rw [List.count_append, List.count_replicate_self, hnames, Nat.add_zero]

/-- A link to an absolute target leads there from everywhere. -/
theorem normalize_join_toLink_absolute (dir : Path) {target : Path}
    (h : target.isAbsolute = true) :
    (dir.join ⟨(relativeTo dir target).toLink⟩).normalize = target.normalize := by
  rw [normalize_eq_iff, ← List.reverse_inj]
  have hdir := dir.settled_settled
  have htarget := target.settled_settled
  rw [h] at htarget
  obtain ⟨names', hnames', hgoal⟩ := htarget.exists_absolute
  have hsteps := isStep_of_mem_names hnames'
  cases hd : dir.isAbsolute with
  | false =>
      -- nothing is shared, so the link is the target written from the root
      rw [hd] at hdir
      obtain ⟨k, names, -, hsource⟩ := hdir.exists_relative
      have hcommon : commonLength dir.settled.reverse target.settled.reverse = 0 := by
        rw [hsource, hgoal]
        cases k <;> cases names <;> rfl
      have hroute := route_of_commonLength_eq_zero hcommon
      conv at hroute => rhs; rw [hgoal]
      rw [settled_join_toLink_root hroute hsteps, foldl_settle_names, hgoal, List.reverse_append,
        List.reverse_reverse]
      rfl
  | true =>
      -- the root is shared, so the link has steps only
      rw [hd] at hdir
      obtain ⟨names, -, hsource⟩ := hdir.exists_absolute
      have hroute : route dir.settled.reverse target.settled.reverse
          = route (names.map Component.name) (names'.map Component.name) := by
        rw [hsource, hgoal]
        exact route_append [.root] _ _
      have hlink : ∀ c ∈ route dir.settled.reverse target.settled.reverse, c.IsStep := by
        rw [hroute]
        exact isStep_of_mem_route hsteps
      rw [settled_join_toLink hlink, hgoal, hsource, List.reverse_eq_iff.mp hsource,
        foldl_route_absolute, List.reverse_reverse]

/-- What leads to a relative target starts from a relative directory, and no further up. -/
theorem relative_of_way {dir target way : Path} (h : target.isAbsolute = false)
    (hway : (dir.join way).normalize = target.normalize) :
    dir.isAbsolute = false ∧
      dir.normalize.components.count .up ≤ target.normalize.components.count .up := by
  rw [normalize_eq_iff] at hway
  have htarget : .root ∉ target.settled := by
    rw [target.settled_settled.root_mem_iff, h]
    exact Bool.false_ne_true
  rw [← hway] at htarget
  have hrelative : way.isAbsolute = false := by
    refine Bool.eq_false_iff.mpr fun habsolute => htarget ?_
    rw [join, if_pos habsolute]
    exact way.settled_settled.root_mem_iff.mpr habsolute
  rw [settled_join hrelative] at hway htarget
  constructor
  · refine Bool.eq_false_iff.mpr fun habsolute => htarget ?_
    have hsettled := dir.settled_settled.foldl fun _ => isStep_of_mem_steps (t := way.spelling)
    exact hsettled.root_mem_iff.mpr habsolute
  · rw [components_normalize, components_normalize, List.count_reverse, List.count_reverse, ← hway]
    exact count_up_le_foldl_settle _ _

/-- A link to a relative target leads there from relative directories, if they start no
    further up. -/
theorem normalize_join_toLink_relative (dir : Path) {target : Path}
    (h : target.isAbsolute = false) :
    (dir.join ⟨(relativeTo dir target).toLink⟩).normalize = target.normalize ↔
      dir.isAbsolute = false ∧
        dir.normalize.components.count .up ≤ target.normalize.components.count .up := by
  constructor
  · exact relative_of_way h
  · rintro ⟨hd, hle⟩
    rw [components_normalize, components_normalize] at hle
    rw [normalize_eq_iff]
    have hdir := dir.settled_settled
    have htarget := target.settled_settled
    rw [hd] at hdir
    rw [h] at htarget
    obtain ⟨k, names, -, hsource⟩ := hdir.exists_relative
    obtain ⟨m, names', hnames', hgoal⟩ := htarget.exists_relative
    have hlink : ∀ c ∈ route dir.settled.reverse target.settled.reverse, c.IsStep := by
      rw [hgoal]
      exact isStep_of_mem_route (isStep_of_mem_relative hnames' m)
    rw [hsource, hgoal, count_up_relative, count_up_relative] at hle
    rw [settled_join_toLink hlink, hsource, hgoal, List.reverse_eq_iff.mp hsource,
      List.reverse_eq_iff.mp hgoal, foldl_route_relative hle]

/-- **Links resolve exactly where they can.**  The link from a directory to a target leads to
    the target if that is absolute, or if the directory is not, and starts no further
    up than the target; and in no other case. -/
theorem normalize_join_toLink_iff (dir target : Path) :
    (dir.join ⟨(relativeTo dir target).toLink⟩).normalize = target.normalize ↔
      target.isAbsolute = true ∨ dir.isAbsolute = false ∧
        dir.normalize.components.count .up ≤ target.normalize.components.count .up := by
  cases h : target.isAbsolute with
  | true => exact ⟨fun _ => Or.inl rfl, fun _ => normalize_join_toLink_absolute dir h⟩
  | false =>
      rw [normalize_join_toLink_relative dir h]
      constructor
      · exact Or.inr
      · rintro (hfalse | hcond)
        · cases hfalse
        · exact hcond

/-- **No path does better.**  Where some path leads from a directory to a target, the link
    does. -/
theorem normalize_join_toLink_of_way {dir target way : Path}
    (h : (dir.join way).normalize = target.normalize) :
    (dir.join ⟨(relativeTo dir target).toLink⟩).normalize = target.normalize := by
  cases htarget : target.isAbsolute with
  | true => exact normalize_join_toLink_absolute dir htarget
  | false => exact (normalize_join_toLink_relative dir htarget).mpr (relative_of_way htarget h)

/-! ## The relative path itself

    A link is the relative path as it is written on a page.  Read again it leads where the
    path does. -/

/-- A path of steps, or of steps from the root. -/
def Stepwise (q : Path) : Prop :=
  (∀ c ∈ q.components, c.IsStep) ∨ ∃ cs, q.components = .root :: cs ∧ ∀ c ∈ cs, c.IsStep

theorem stepwise_relativeTo (dir target : Path) : (relativeTo dir target).Stepwise := by
  rw [Stepwise, relativeTo_eq]
  have htarget := target.settled_settled
  cases h : target.isAbsolute with
  | false =>
      rw [h] at htarget
      obtain ⟨m, names, hnames, hgoal⟩ := htarget.exists_relative
      have hsteps : ∀ c ∈ route dir.settled.reverse target.settled.reverse, c.IsStep := by
        rw [hgoal]
        exact isStep_of_mem_route (isStep_of_mem_relative hnames m)
      rw [components_ofComponents hsteps]
      exact Or.inl hsteps
  | true =>
      rw [h] at htarget
      obtain ⟨names, hnames, hgoal⟩ := htarget.exists_absolute
      rw [hgoal, route]
      -- the root is part of the route, or it is shared
      cases commonLength dir.settled.reverse (.root :: names.map Component.name) with
      | zero =>
          refine Or.inr ⟨_, components_ofComponents_root _ (isStep_of_mem_names hnames), ?_⟩
          exact isStep_of_mem_names hnames
      | succ k =>
          have hsteps : ∀ c ∈ List.replicate (dir.settled.reverse.length - (k + 1)) Component.up
              ++ (names.map Component.name).drop k, c.IsStep := by
            intro c hc
            rcases List.mem_append.mp hc with hc | hc
            · rw [(List.mem_replicate.mp hc).2]
              exact isStep_up
            · exact isStep_of_mem_names hnames c (List.mem_of_mem_drop hc)
          rw [List.drop_succ_cons, components_ofComponents hsteps]
          exact Or.inl hsteps

/-- The root is a component of absolute paths only. -/
theorem isAbsolute_of_root_mem {q : Path} (h : .root ∈ q.components) : q.isAbsolute = true := by
  refine (Bool.eq_false_or_eq_true q.isAbsolute).resolve_right fun hq => ?_
  rw [components_of_relative hq] at h
  rcases List.mem_append.mp h with hhere | hstep
  · split at hhere
    · cases List.mem_singleton.mp hhere
    · cases hhere
  · rcases (isStep_of_mem_steps hstep).cases with hup | ⟨t, hname⟩
    · cases hup
    · cases hname

/-- A path of steps begins with neither the root nor a dot. -/
theorem components_of_isStep {q : Path} (h : ∀ c ∈ q.components, c.IsStep) :
    q.isAbsolute = false ∧ steps q.spelling = q.components := by
  have hq : q.isAbsolute = false := by
    refine Bool.eq_false_iff.mpr fun habsolute => ?_
    rw [components_of_absolute habsolute] at h
    rcases (h .root List.mem_cons_self).cases with hup | ⟨t, hname⟩
    · cases hup
    · cases hname
  refine ⟨hq, ?_⟩
  rw [components_of_relative hq] at h ⊢
  split at h
  · rcases (h .here List.mem_cons_self).cases with hup | ⟨t, hname⟩
    · cases hup
    · cases hname
  · next hhere => rw [if_neg hhere, List.nil_append]

/-- Read as a link, such a path leads where it leads. -/
theorem settled_join_link (p : Path) {q : Path} (h : q.Stepwise) :
    (p.join ⟨q.toLink⟩).settled = (p.join q).settled := by
  rcases h with hsteps | ⟨cs, hroot, hsteps⟩
  · obtain ⟨hrelative, hlink⟩ := components_toLink hsteps
    obtain ⟨hq, hcomponents⟩ := components_of_isStep hsteps
    rw [settled_join hrelative, settled_join hq, hlink, hcomponents]
  · obtain ⟨habsolute, hlink⟩ := components_toLink_root hroot hsteps
    have hq : q.isAbsolute = true := isAbsolute_of_root_mem (hroot ▸ List.mem_cons_self)
    rw [join, if_pos habsolute, join, if_pos hq, settled, hlink]
    rfl

/-- Where some path leads from a directory to a target, the relative path does. -/
theorem normalize_join_relativeTo_of_way {dir target way : Path}
    (h : (dir.join way).normalize = target.normalize) :
    (dir.join (relativeTo dir target)).normalize = target.normalize := by
  rw [normalize_eq_iff, ← settled_join_link dir (stepwise_relativeTo dir target), ← normalize_eq_iff]
  exact normalize_join_toLink_of_way h

/-- The number of `..` that a path begins with. -/
def leadingUps (p : Path) : Nat :=
  (p.components.takeWhile (· == .up)).length

/-- A normal path has no `..` but those. -/
theorem leadingUps_normalize (p : Path) :
    p.normalize.leadingUps = p.normalize.components.count .up := by
  rw [leadingUps, components_normalize]
  have hp := p.settled_settled
  cases h : p.isAbsolute with
  | true =>
      rw [h] at hp
      obtain ⟨names, -, hshape⟩ := hp.exists_absolute
      have hnone : Component.up ∉ Component.root :: names.map Component.name := by
        simp [up_notMem_names names]
      rw [hshape, List.count_eq_zero.mpr hnone]
      rfl
  | false =>
      rw [h] at hp
      obtain ⟨k, names, -, hshape⟩ := hp.exists_relative
      have hups : (List.replicate k Component.up ++ names.map Component.name).takeWhile (· == .up)
          = List.replicate k .up := by
        rw [List.takeWhile_append_of_pos fun c hc => beq_iff_eq.mpr (List.eq_of_mem_replicate hc)]
        cases names <;> exact List.append_nil _
      rw [hshape, hups, List.length_replicate, count_up_relative]

/-- **The relative path leads back exactly where a path can.**  From a directory, the relative path
    to a target leads to the target exactly if that is absolute, or if both are
    relative and the normal form of the directory begins with no more `..` than that of the
    target; and if it does not lead there, no path does. -/
theorem relativeTo_undoes_resolution (dir target : Path) :
    ((dir.join (relativeTo dir target)).normalize = target.normalize ↔
      target.isAbsolute = true ∨ dir.isAbsolute = false ∧ target.isAbsolute = false ∧
        dir.normalize.leadingUps ≤ target.normalize.leadingUps) ∧
    ((dir.join (relativeTo dir target)).normalize = target.normalize ↔
      ∃ way : Path, (dir.join way).normalize = target.normalize) := by
  constructor
  · have hlink := normalize_join_toLink_iff dir target
    rw [normalize_eq_iff, settled_join_link dir (stepwise_relativeTo dir target),
      ← normalize_eq_iff] at hlink
    rw [hlink, leadingUps_normalize, leadingUps_normalize]
    cases target.isAbsolute with
    | true => simp only [true_or]
    | false => simp only [true_and]
  · constructor
    · exact fun h => ⟨relativeTo dir target, h⟩
    · rintro ⟨way, hway⟩
      exact normalize_join_relativeTo_of_way hway

end Literate.Path
