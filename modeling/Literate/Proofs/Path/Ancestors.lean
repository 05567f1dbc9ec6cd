import Literate.Proofs.Path.Location
import Literate.Proofs.Path.Parent
import Mathlib.Data.List.Infix

/-! # The directories above a path

    The path and its parents are what is met by going from a path to its parent
    until there is none (`Path.ancestors_outermost`, `Path.ancestors_outwards`).
    They are cuts of the spelling, so they are the paths that have the first
    components of the path: all of them, some of them, the root alone or nothing
    (`Path.begins_of_mem_ancestors`, `Path.exists_mem_ancestors`).

    A cut takes the last component away, whatever it is; and one that is `..`
    leads up, so that the path without it lies further down.  A path has all its
    ancestors above it, wherever it is followed from, if it is inward
    (`Path.Inward.placeFrom_begins`), which it is if it has no `..` in it
    (`Path.inward_of_up_notMem`).  A path that is not has an ancestor that does not
    lie above it, however deep the directory that both are followed from
    (`Path.exists_outside`). -/

namespace Literate.Path

open Component

/-- The root is the first component, or none. -/
theorem root_leads {p : Path} {before after : List Component}
    (h : p.components = before ++ .root :: after) : before = [] := by
  have habsolute : p.isAbsolute = true := by
    refine isAbsolute_of_root_mem ?_
    rw [h]
    exact List.mem_append_right before List.mem_cons_self
  rw [components_of_absolute habsolute] at h
  cases before with
  | nil => rfl
  | cons c before =>
      have hstep : Component.root ∈ steps p.spelling := by
        rw [(List.cons.inj h).2]
        exact List.mem_append_right before List.mem_cons_self
      rcases (isStep_of_mem_steps hstep).cases with hup | ⟨t, hname⟩
      · cases hup
      · cases hname

theorem isAbsolute_eq (p : Path) : p.isAbsolute = (p.components.head? == some .root) := by
  cases h : p.isAbsolute with
  | true =>
      rw [components_of_absolute h]
      rfl
  | false =>
      refine (beq_eq_false_iff_ne.mpr fun hroot => ?_).symm
      rw [isAbsolute_of_root_mem (List.mem_of_head? hroot)] at h
      cases h

/-- Paths that begin with the same component start from the same place. -/
theorem isAbsolute_of_begins {p q : Path} (h : q.components <+: p.components)
    (hne : q.components ≠ []) : q.isAbsolute = p.isAbsolute := by
  obtain ⟨rest, hrest⟩ := h
  obtain ⟨c, cs, hcs⟩ := List.exists_cons_of_ne_nil hne
  rw [isAbsolute_eq, isAbsolute_eq, ← hrest, hcs]
  rfl

/-! ## One directory up -/

/-- Where there is no parent, there is at most the root. -/
theorem marks_outermost {p : Path} (h : p.parent? = none) :
    p.marks = [] ∨ ∃ e, p.marks = [(.root, e)] := by
  rw [parent?] at h
  split at h
  · next hmarks => exact Or.inl (List.reverse_eq_nil_iff.mp hmarks)
  · next e before hmarks =>
      have hcomponents : p.components = (before.map Prod.fst).reverse ++ .root :: [] := by
        rw [components, List.reverse_eq_cons_iff.mp hmarks, List.map_append, List.map_reverse]
        rfl
      have hnil : before = [] := by simpa using root_leads hcomponents
      rw [hnil] at hmarks
      exact Or.inr ⟨e, List.reverse_eq_cons_iff.mp hmarks⟩
  · cases h
  · cases h

/-- A parent is empty or a cut. -/
theorem marks_outwards {p q : Path} (h : p.parent? = some q) :
    (q = empty ∧ p.isAbsolute = false ∧ ∃ m, p.marks = [m]) ∨
      ∃ before m last, q = ⟨p.spelling.take m.2⟩ ∧ p.marks = before ++ m :: [last] := by
  rw [parent?] at h
  split at h
  · cases h
  · cases h
  · next m hroot hmarks =>
      have hmarks := List.reverse_eq_cons_iff.mp hmarks
      refine Or.inl ⟨(Option.some.inj h).symm, ?_, m, hmarks⟩
      rw [isAbsolute_eq, components, hmarks]
      exact beq_eq_false_iff_ne.mpr fun heq => hroot m.2 (Prod.ext (Option.some.inj heq) rfl)
  · next last c e before hroot hmarks =>
      refine Or.inr ⟨before.reverse, (c, e), last, (Option.some.inj h).symm, ?_⟩
      rw [List.reverse_eq_cons_iff.mp hmarks, List.reverse_cons, List.append_assoc]
      rfl

theorem components_outermost {p : Path} (h : p.parent? = none) :
    p.components = [] ∨ p.components = [.root] := by
  rcases marks_outermost h with hnil | ⟨e, hroot⟩
  · exact Or.inl (congrArg (List.map Prod.fst) hnil)
  · exact Or.inr (congrArg (List.map Prod.fst) hroot)

/-- A parent has all components but the last, and starts from the same place. -/
theorem components_outwards {p q : Path} (h : p.parent? = some q) :
    (∃ c, p.components = q.components ++ [c]) ∧ q.isAbsolute = p.isAbsolute := by
  rcases marks_outwards h with ⟨rfl, hrelative, m, hmarks⟩ | ⟨before, m, last, rfl, hmarks⟩
  · exact ⟨⟨m.1, congrArg (List.map Prod.fst) hmarks⟩, hrelative.symm⟩
  · have hcut := components_take hmarks
    have hall : p.components = (before ++ [m]).map Prod.fst ++ [last.1] := by
      rw [components, hmarks, List.append_cons, List.map_append]
      rfl
    refine ⟨⟨last.1, by rw [hcut, hall]⟩, isAbsolute_of_begins ?_ ?_⟩
    · rw [hcut, hall]
      exact List.prefix_append _ _
    · rw [hcut]
      simp

/-- Going up comes to an end, so what the outermost paths have and every path has from its parent,
    every path has. -/
theorem outwards_induction {motive : Path → Prop} (outermost : ∀ p, p.parent? = none → motive p)
    (outwards : ∀ p q, p.parent? = some q → motive q → motive p) (p : Path) : motive p := by
  induction hn : p.components.length generalizing p with
  | zero =>
      cases hparent : p.parent? with
      | none => exact outermost p hparent
      | some q =>
          obtain ⟨⟨c, hc⟩, -⟩ := components_outwards hparent
          rw [hc, List.length_append] at hn
          cases hn
  | succ n ih =>
      cases hparent : p.parent? with
      | none => exact outermost p hparent
      | some q =>
          obtain ⟨⟨c, hc⟩, -⟩ := components_outwards hparent
          rw [hc, List.length_append] at hn
          exact outwards p q hparent (ih q (Nat.succ.inj hn))

/-! ## The path and its parents -/

theorem le_of_mem_ends {pos : Nat} {parts : List Text} {m : Text × Nat} (h : m ∈ ends pos parts) :
    pos + m.1.length ≤ m.2 := by
  induction parts generalizing pos with
  | nil => cases h
  | cons part parts ih =>
      rcases List.mem_cons.mp h with rfl | h
      · exact Nat.le_refl _
      · have := ih h
        omega

theorem pairwise_ends (pos : Nat) (parts : List Text) :
    (ends pos parts).Pairwise fun m m' => m.2 ≤ m'.2 := by
  induction parts generalizing pos with
  | nil => exact List.Pairwise.nil
  | cons part parts ih =>
      refine List.pairwise_cons.mpr ⟨fun m hm => ?_, ih _⟩
      have := le_of_mem_ends hm
      show pos + part.length ≤ m.2
      omega

/-- Components end one after the other. -/
theorem pairwise_marks (p : Path) : p.marks.Pairwise fun m m' => m.2 ≤ m'.2 := by
  have hmark : ∀ {part : Text × Nat} {m : Component × Nat}, markOf? part = some m →
      m.2 = part.2 ∧ part.1 ≠ [] := by
    intro part m h
    obtain ⟨c, hc, rfl⟩ := Option.map_eq_some_iff.mp h
    refine ⟨rfl, fun hnil => ?_⟩
    rw [hnil] at hc
    cases hc
  rw [marks_eq]
  refine List.pairwise_append.mpr ⟨?_, ?_, ?_⟩
  · rw [base]
    split
    · exact List.pairwise_singleton _ _
    · split
      · exact List.pairwise_singleton _ _
      · exact List.Pairwise.nil
  · refine (pairwise_ends 0 _).filterMap markOf? ?_
    intro part part' hle m hm m' hm'
    rw [(hmark hm).1, (hmark hm').1]
    exact hle
  · intro m hm m' hm'
    obtain ⟨part, hpart, hmark'⟩ := List.mem_filterMap.mp hm'
    have hone : m.2 = 1 := by
      rw [base] at hm
      split at hm
      · rw [List.mem_singleton.mp hm]
      · split at hm
        · rw [List.mem_singleton.mp hm]
        · cases hm
    have hpos := List.length_pos_iff.mpr (hmark hmark').2
    have hend := le_of_mem_ends hpart
    rw [hone, (hmark hmark').1]
    omega

theorem ancestors_outermost {p : Path} (h : p.parent? = none) : p.ancestors = [p] := by
  rcases marks_outermost h with hnil | ⟨e, hroot⟩
  · rw [ancestors, hnil, List.isEmpty_nil, Bool.or_true]
    rfl
  · have habsolute : p.isAbsolute = true := by
      rw [isAbsolute_eq, components, hroot]
      rfl
    rw [ancestors, hroot, habsolute]
    rfl

/-- **The parents of a path are its parent and the parents of that.** -/
theorem ancestors_outwards {p q : Path} (h : p.parent? = some q) :
    p.ancestors = p :: q.ancestors := by
  have habsolute := (components_outwards h).2
  rcases marks_outwards h with ⟨rfl, hrelative, m, hmarks⟩ | ⟨before, m, last, rfl, hmarks⟩
  · rw [ancestors, hmarks, hrelative]
    rfl
  · -- the outer cuts of the spelling are cuts of the inner one
    have hcuts : before.reverse.map (fun m' => (⟨p.spelling.take m'.2⟩ : Path))
        = before.reverse.map fun m' => ⟨(p.spelling.take m.2).take m'.2⟩ := by
      refine List.map_congr_left fun m' hm' => ?_
      have hle : m'.2 ≤ m.2 := by
        have hordered := p.pairwise_marks
        rw [hmarks] at hordered
        exact (List.pairwise_append.mp hordered).2.2 m' (List.mem_reverse.mp hm') m
          List.mem_cons_self
      rw [List.take_take, Nat.min_eq_left hle]
    rw [ancestors, hmarks, ancestors, marks_take hmarks, habsolute]
    simp [hcuts]

/-- What the path and its parents begin with is what the path begins with. -/
theorem begins_of_mem_ancestors {p q : Path} (h : q ∈ p.ancestors) :
    q.components <+: p.components ∧ q.isAbsolute = p.isAbsolute := by
  induction p using outwards_induction with
  | outermost p hnone =>
      rw [ancestors_outermost hnone, List.mem_singleton] at h
      subst h
      exact ⟨List.prefix_rfl, rfl⟩
  | outwards p outer hsome ih =>
      rw [ancestors_outwards hsome] at h
      rcases List.mem_cons.mp h with rfl | h
      · exact ⟨List.prefix_rfl, rfl⟩
      · obtain ⟨⟨c, hc⟩, habsolute⟩ := components_outwards hsome
        obtain ⟨hbegins, hsame⟩ := ih h
        refine ⟨hbegins.trans ?_, hsame.trans habsolute⟩
        rw [hc]
        exact List.prefix_append _ _

/-- Whatever a path begins with, one of them has just that; an absolute path always begins with
    the root. -/
theorem exists_mem_ancestors {p : Path} {before : List Component} (h : before <+: p.components)
    (hroot : p.isAbsolute = true → before ≠ []) : ∃ q ∈ p.ancestors, q.components = before := by
  induction p using outwards_induction with
  | outermost p hnone =>
      refine ⟨p, List.mem_cons_self, ?_⟩
      rcases components_outermost hnone with hcs | hcs
      · rw [hcs] at h ⊢
        exact (List.prefix_nil.mp h).symm
      · have habsolute : p.isAbsolute = true := by
          rw [isAbsolute_eq, hcs]
          rfl
        have hlength := List.length_pos_iff.mpr (hroot habsolute)
        refine (h.eq_of_length_le ?_).symm
        rw [hcs]
        exact hlength
  | outwards p outer hsome ih =>
      obtain ⟨⟨c, hc⟩, habsolute⟩ := components_outwards hsome
      rw [ancestors_outwards hsome]
      rw [hc] at h
      rcases List.prefix_concat_iff.mp h with rfl | h
      · exact ⟨p, List.mem_cons_self, hc⟩
      · obtain ⟨q, hq, hcomponents⟩ := ih h fun houter => hroot (habsolute ▸ houter)
        exact ⟨q, List.mem_cons_of_mem _ hq, hcomponents⟩

/-! ## Paths that stay inside -/

/-- A path that stays inside every directory it passes: it does not rise above where it starts,
    and whatever it begins with, it ends there or below. -/
structure Inward (p : Path) : Prop where
  stays : .up ∉ p.settled
  inside : ∀ before, before <+: p.components → before.foldl settle [] <:+ p.settled

/-- Without `..`, components settle on top. -/
theorem foldl_settle_of_up_notMem {cs : List Component} (h : .up ∉ cs) (done : List Component) :
    cs.foldl settle done = (cs.filter (· ≠ .here)).reverse ++ done := by
  induction cs generalizing done with
  | nil => rfl
  | cons c cs ih =>
      obtain ⟨hc, hcs⟩ := not_or.mp fun hmem => h (List.mem_cons.mpr hmem)
      rw [List.foldl_cons, ih hcs]
      cases c with
      | up => exact absurd rfl hc
      | here => rfl
      | root => simp [settle]
      | name t => simp [settle]

/-- A path without `..` is inward. -/
theorem inward_of_up_notMem {p : Path} (h : .up ∉ p.components) : p.Inward := by
  constructor
  · intro hmem
    rw [settled, foldl_settle_of_up_notMem h, List.append_nil, List.mem_reverse] at hmem
    exact h (List.mem_of_mem_filter hmem)
  · rintro before ⟨after, hafter⟩
    have hup : .up ∉ after := by
      intro hmem
      rw [← hafter] at h
      exact h (List.mem_append_right before hmem)
    rw [settled, ← hafter, List.foldl_append, foldl_settle_of_up_notMem hup]
    exact List.suffix_append _ _

/-- A path that does not rise goes down by its names, from the root or from where it starts. -/
theorem exists_names {p : Path} (h : .up ∉ p.settled) :
    ∃ names : List Text,
      p.settled.reverse = (if p.isAbsolute then [.root] else []) ++ names.map Component.name ∧
      ∀ place, p.placeFrom place = (if p.isAbsolute then [] else place) ++ names := by
  have hplace : ∀ place, p.placeFrom place = p.settled.reverse.foldl Place.go place :=
    fun place => (Place.foldl_go_settle p.components [] place).symm
  have hshape := p.settled_settled
  cases habsolute : p.isAbsolute with
  | true =>
      rw [habsolute] at hshape
      obtain ⟨names, -, hnames⟩ := hshape.exists_absolute
      refine ⟨names, hnames, fun place => ?_⟩
      rw [hplace, hnames, List.foldl_cons, Place.foldl_go_names]
      rfl
  | false =>
      rw [habsolute] at hshape
      obtain ⟨k, names, -, hnames⟩ := hshape.exists_relative
      have hzero : k = 0 := by
        by_contra hk
        refine h (List.mem_reverse.mp ?_)
        rw [hnames]
        exact List.mem_append_left _ (List.mem_replicate.mpr ⟨hk, rfl⟩)
      subst hzero
      refine ⟨names, hnames, fun place => ?_⟩
      rw [hplace, hnames, List.replicate_zero, List.nil_append, Place.foldl_go_names]
      rfl

/-- Of two paths that do not rise, one leads above the other exactly if the other settles on top
    of it. -/
theorem placeFrom_begins_iff {p q : Path} (habsolute : q.isAbsolute = p.isAbsolute)
    (hq : .up ∉ q.settled) (hp : .up ∉ p.settled) (place : Place) :
    q.placeFrom place <+: p.placeFrom place ↔ q.settled <:+ p.settled := by
  obtain ⟨names, hnames, hplace⟩ := exists_names hq
  obtain ⟨names', hnames', hplace'⟩ := exists_names hp
  have hinj : Function.Injective Component.name := fun _ _ heq => Component.name.inj heq
  rw [hplace, hplace', habsolute, List.prefix_append_right_inj, ← List.reverse_prefix, hnames,
    hnames', habsolute, List.prefix_append_right_inj, List.prefix_map_iff_of_injective hinj]

/-- **The ancestors of an inward path lie above it.** -/
theorem Inward.placeFrom_begins {p q : Path} (h : p.Inward) (hq : q ∈ p.ancestors)
    (place : Place) : q.placeFrom place <+: p.placeFrom place := by
  obtain ⟨hbegins, habsolute⟩ := begins_of_mem_ancestors hq
  have hsuffix := h.inside q.components hbegins
  have hstays : .up ∉ q.settled := fun hmem => h.stays (hsuffix.subset hmem)
  exact (placeFrom_begins_iff habsolute hstays h.stays place).mpr hsuffix

/-- A path that rises does not end below where it starts, if the directories on its way down
    are not named as those that it has left. -/
theorem not_begins_of_rises {p : Path} {k : Nat} {names : List Text}
    (h : p.settled.reverse = List.replicate (k + 1) .up ++ names.map Component.name) {t : Text}
    (ht : IsName t) (hhead : names.head? ≠ some t) (depth : Nat) :
    ¬ (Directory.uniform ht (depth + (k + 1))).place
      <+: p.placeFrom (Directory.uniform ht (depth + (k + 1))).place := by
  rw [placeFrom_uniform h, Nat.add_sub_cancel]
  show ¬ List.replicate (depth + (k + 1)) t <+: _
  rw [List.replicate_add, List.prefix_append_right_inj, List.replicate_succ]
  rintro ⟨rest, hrest⟩
  rw [← hrest] at hhead
  exact hhead rfl

/-- Some name is not the first of the names. -/
theorem exists_isName_ne (names : List Text) : ∃ t, IsName t ∧ names.head? ≠ some t := by
  by_cases hhead : names.head? = some ['a']
  · refine ⟨['b'], isName_singleton (by decide) (by decide), ?_⟩
    rw [hhead]
    decide
  · exact ⟨['a'], isName_singleton (by decide) (by decide), hhead⟩

/-- A path that rises has left the directory it starts from. -/
theorem exists_outside_of_rises {p : Path} (hup : .up ∈ p.settled) (depth : Nat) :
    ∃ q ∈ p.ancestors, ∃ d : Directory, depth ≤ d.place.length ∧
      ¬ q.placeFrom d.place <+: p.placeFrom d.place := by
  have hmem := List.mem_reverse.mpr hup
  obtain ⟨before, after, hsplit⟩ := List.append_of_mem hmem
  have hshape := p.settled_settled
  have hrelative := (hshape.up_leads hsplit).1
  rw [hrelative] at hshape
  obtain ⟨k, names, -, hnames⟩ := hshape.exists_relative
  rw [hnames] at hmem
  cases k with
  | zero => exact absurd hmem (up_notMem_names names)
  | succ k =>
      obtain ⟨q, hq, hnil⟩ : ∃ q ∈ p.ancestors, q.components = [] := by
        refine exists_mem_ancestors List.nil_prefix fun habsolute => ?_
        rw [hrelative] at habsolute
        cases habsolute
      have hstart : ∀ place, q.placeFrom place = place := by
        intro place
        rw [placeFrom, hnil]
        rfl
      obtain ⟨t, ht, hhead⟩ := exists_isName_ne names
      refine ⟨q, hq, Directory.uniform ht (depth + (k + 1)), ?_, ?_⟩
      · rw [Directory.uniform, List.length_replicate]
        exact Nat.le_add_right _ _
      · rw [hstart]
        exact not_begins_of_rises hnames ht hhead depth

/-- A path that does not rise may still have left a directory on its way. -/
theorem exists_outside_of_leaves {p : Path} (hup : .up ∉ p.settled) {before : List Component}
    (hbefore : before <+: p.components) (hleft : ¬ before.foldl settle [] <:+ p.settled)
    (depth : Nat) :
    ∃ q ∈ p.ancestors, ∃ d : Directory, depth ≤ d.place.length ∧
      ¬ q.placeFrom d.place <+: p.placeFrom d.place := by
  have hne : before ≠ [] := by
    rintro rfl
    exact hleft List.nil_suffix
  obtain ⟨q, hq, rfl⟩ := exists_mem_ancestors hbefore fun _ => hne
  have hstays : .up ∉ q.settled := by
    obtain ⟨after, hafter⟩ := hbefore
    have hsettled : after.foldl settle q.settled = p.settled := by
      rw [settled, ← List.foldl_append, hafter]
      rfl
    have hle := count_up_le_foldl_settle after q.settled
    rw [hsettled, List.count_eq_zero.mpr hup] at hle
    exact List.count_eq_zero.mp (Nat.le_zero.mp hle)
  have ha : IsName ['a'] := isName_singleton (by decide) (by decide)
  refine ⟨q, hq, Directory.uniform ha depth, ?_, ?_⟩
  · rw [Directory.uniform, List.length_replicate]
  · rw [placeFrom_begins_iff (isAbsolute_of_begins hbefore hne) hstays hup]
    exact hleft

/-- **A path that is not inward has an ancestor that does not lie above it**, seen from directories
    as deep as one likes. -/
theorem exists_outside {p : Path} (h : ¬ p.Inward) (depth : Nat) :
    ∃ q ∈ p.ancestors, ∃ d : Directory, depth ≤ d.place.length ∧
      ¬ q.placeFrom d.place <+: p.placeFrom d.place := by
  by_cases hup : .up ∈ p.settled
  · exact exists_outside_of_rises hup depth
  · obtain ⟨before, hbefore, hleft⟩ :
        ∃ before, before <+: p.components ∧ ¬ before.foldl settle [] <:+ p.settled := by
      by_contra hnone
      push Not at hnone
      exact h ⟨hup, hnone⟩
    exact exists_outside_of_leaves hup hbefore hleft depth

end Literate.Path
