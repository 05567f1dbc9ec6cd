import Literate.Lattice.Validation
import Literate.Proofs.Lattice.Edges
import Mathlib.Data.List.Chain

/-! # The search for cycles

    The two searches find a cycle exactly when there is one
    (`findCycle?_eq_none_iff`), whether or not a root leads to it.

    * `SearchEnds` gives a search by its turns alone: the paths wait in a list, and
      nothing is said about how many turns are left.  Every search ends in that
      way with the answer that it gives (`search_ends`).
    * Soundness: every path that waits is a walk, so a child that is already on the
      path closes a cycle (`SearchEnds.exists_cycle`).
    * Completeness: a name that leads to a cycle always has a child that does, so
      a path that ends in such a name closes a cycle or goes on to another path
      of the same kind (`SearchEnds.eq_error_of_leads`).
    * A search that closes no cycle comes to exactly the names that its seeds lead
      to (`mem_reached_iff`).  The second one starts from all other names
      (`mem_unreached_iff`), and every name on a cycle that is left is one of them
      (`mem_unreached_of_cycle`). -/

namespace Literate

namespace Lattice

open Relation

variable {l : Lattice} {back reached : List ChunkName} {waiting : List (List ChunkName)}

/-- One step from a name to a name it refers to. -/
def Child (l : Lattice) (a b : ChunkName) : Prop :=
  b ∈ l.children a

/-! ## Names that lead to a cycle -/

/-- Some path leads from the name to a cycle. -/
def Leads (l : Lattice) (a : ChunkName) : Prop :=
  ∃ b, ReflTransGen l.Child a b ∧ TransGen l.Child b b

theorem leads_of_cycle {a : ChunkName} (h : TransGen l.Child a a) : l.Leads a :=
  ⟨a, ReflTransGen.refl, h⟩

theorem Leads.of_reflTransGen {a b : ChunkName} (hab : ReflTransGen l.Child a b)
    (h : l.Leads b) : l.Leads a := by
  obtain ⟨c, hbc, hc⟩ := h
  exact ⟨c, hab.trans hbc, hc⟩

/-- A name that leads to a cycle has a child that does. -/
theorem Leads.exists_child {a : ChunkName} (h : l.Leads a) : ∃ b, l.Child a b ∧ l.Leads b := by
  obtain ⟨c, hac, hc⟩ := h
  rcases hac.cases_head with rfl | ⟨b, hab, hbc⟩
  · obtain ⟨b, hab, hba⟩ := TransGen.head'_iff.1 hc
    exact ⟨b, hab, leads_of_cycle (TransGen.tail' hba hab)⟩
  · exact ⟨b, hab, c, hbc, hc⟩

/-- A name on a cycle is a name of the lattice. -/
theorem mem_names_of_cycle {a : ChunkName} (h : TransGen l.Child a a) : a ∈ l.names := by
  obtain ⟨b, hab, -⟩ := TransGen.head'_iff.1 h
  exact mem_names_of_mem_children hab

/-! ## The turns of a search -/

/-- A search whose paths wait in a list, and what it ends with: the names that a path closes,
    or else all names that it has come to. -/
inductive SearchEnds (l : Lattice) :
    List (List ChunkName) → List ChunkName → Except (List ChunkName) (List ChunkName) → Prop where
  | exhausted {reached : List ChunkName} : SearchEnds l [] reached (.ok reached)
  | found {back before after reached : List ChunkName} {child : ChunkName}
      {waiting : List (List ChunkName)} :
      l.ahead back = before ++ child :: after → (∀ name ∈ before, name ∉ back) → child ∈ back →
      SearchEnds l (back :: waiting) reached (.error (closing back.reverse child))
  | turn {back reached : List ChunkName} {waiting : List (List ChunkName)}
      {answer : Except (List ChunkName) (List ChunkName)} :
      (∀ child ∈ l.ahead back, child ∉ back) →
      SearchEnds l (waiting ++ (l.ahead back).map (· :: back))
        ((l.ahead back).foldl addNew reached) answer →
      SearchEnds l (back :: waiting) reached answer

/-- Every search comes to its end turn by turn. -/
theorem search_ends (l : Lattice) (s : Search) :
    SearchEnds l s.waiting s.reached (l.search s) := by
  fun_induction search l s with
  | case1 s hnext =>
      rw [Search.waiting_of_next?_eq_none hnext]
      exact .exhausted
  | case2 s back rest hnext names hmeet =>
      obtain ⟨hwaiting, -⟩ := Search.waiting_of_next?_eq_some hnext
      obtain ⟨before, child, after, hahead, hbefore, hchild, rfl⟩ := Search.meetAll_eq_error hmeet
      rw [hwaiting]
      exact .found hahead hbefore hchild
  | case3 s back rest hnext s' hmeet ih =>
      obtain ⟨hwaiting, hreached⟩ := Search.waiting_of_next?_eq_some hnext
      obtain ⟨hnew, hwaiting', hreached'⟩ := Search.meetAll_eq_ok hmeet
      rw [hwaiting]
      refine .turn hnew ?_
      rw [← hwaiting', ← hreached, ← hreached']
      exact ih

/-- What a search from some names ends with. -/
theorem search_start_ends (l : Lattice) (seeds reached : List ChunkName) :
    SearchEnds l (seeds.map ([·])) (seeds.foldl addNew reached)
      (l.search (.start seeds reached)) := by
  have h := search_ends l (.start seeds reached)
  rw [Search.waiting_start] at h
  exact h

/-! ## The names that a path closes -/

theorem closing_suffix (way : List ChunkName) (again : ChunkName) :
    closing way again <:+ way ++ [again] := by
  obtain ⟨before, hbefore⟩ := List.dropWhile_suffix (l := way) (· != again)
  exact ⟨before, by rw [closing, ← List.append_assoc, hbefore]⟩

/-- A path that steps on to one of its names goes round from there: back to the first
    name, and past no other name twice. -/
theorem closing_goes_round {R : ChunkName → ChunkName → Prop} {way : List ChunkName}
    {again : ChunkName} (hmeets : again ∈ way) (hdistinct : way.Nodup)
    (hchain : (way ++ [again]).IsChain R) :
    2 ≤ (closing way again).length ∧
      (closing way again).head? = (closing way again).getLast? ∧
      (closing way again).dropLast.Nodup ∧ (closing way again).IsChain R := by
  have hsub : (way.dropWhile (· != again)).Sublist way := List.dropWhile_sublist _
  refine ⟨?_, ?_, ?_, hchain.suffix (closing_suffix way again)⟩
  all_goals rw [closing]
  · obtain ⟨rest, hrest⟩ := exists_dropWhile_eq_cons hmeets
    rw [hrest, List.length_append, List.length_cons, List.length_singleton]
    omega
  · obtain ⟨rest, hrest⟩ := exists_dropWhile_eq_cons hmeets
    rw [List.getLast?_concat, hrest]
    rfl
  · rw [List.dropLast_concat]
    exact hdistinct.sublist hsub

/-! ## Soundness -/

/-- Every name of a path that is given backwards is a child of the one behind it. -/
def Walk (l : Lattice) (back : List ChunkName) : Prop :=
  back.IsChain fun b a => l.Child a b

theorem walk_singleton (l : Lattice) (a : ChunkName) : l.Walk [a] :=
  List.isChain_singleton a

theorem Walk.reflTransGen {a b : ChunkName} {back : List ChunkName}
    (h : l.Walk (b :: back)) (ha : a ∈ b :: back) : ReflTransGen l.Child a b := by
  induction back generalizing b with
  | nil =>
      rw [List.mem_singleton] at ha
      rw [ha]
  | cons c back ih =>
      obtain ⟨hcb, hback⟩ := List.isChain_cons_cons.1 h
      rcases List.mem_cons.mp ha with rfl | ha
      · exact ReflTransGen.refl
      · exact (ih hback ha).tail hcb

/-- A walk that goes on is a walk. -/
theorem Walk.extend {child : ChunkName} (h : l.Walk back) (hchild : child ∈ l.ahead back) :
    l.Walk (child :: back) := by
  cases back with
  | nil => exact nomatch hchild
  | cons a rest => exact List.isChain_cons_cons.2 ⟨hchild, h⟩

/-- A child that is already on a walk closes a cycle. -/
theorem Walk.exists_cycle {child : ChunkName} (h : l.Walk back) (hchild : child ∈ l.ahead back)
    (hback : child ∈ back) : ∃ a, TransGen l.Child a a := by
  cases back with
  | nil => exact nomatch hback
  | cons a rest => exact ⟨a, TransGen.head' hchild (h.reflTransGen hback)⟩

/-- A search along walks that closes something is a sign of a cycle. -/
theorem SearchEnds.exists_cycle {names : List ChunkName}
    {answer : Except (List ChunkName) (List ChunkName)} (h : SearchEnds l waiting reached answer) :
    (∀ back ∈ waiting, l.Walk back) → answer = .error names → ∃ a, TransGen l.Child a a := by
  induction h with
  | exhausted => intro _ hno; exact nomatch hno
  | found hahead _ hchild =>
      intro hwalk _
      refine (hwalk _ List.mem_cons_self).exists_cycle ?_ hchild
      rw [hahead]
      exact List.mem_append_right _ List.mem_cons_self
  | turn _ _ ih =>
      intro hwalk
      refine ih ?_
      intro next hnext
      rcases List.mem_append.1 hnext with hnext | hnext
      · exact hwalk next (List.mem_cons_of_mem _ hnext)
      · obtain ⟨child, hchild, rfl⟩ := List.mem_map.1 hnext
        exact (hwalk _ List.mem_cons_self).extend hchild

theorem search_sound {seeds names : List ChunkName}
    (h : l.search (.start seeds reached) = .error names) : ∃ a, TransGen l.Child a a := by
  refine (search_start_ends l seeds reached).exists_cycle ?_ h
  intro back hback
  obtain ⟨seed, -, rfl⟩ := List.mem_map.1 hback
  exact walk_singleton l seed

/-! ## Completeness -/

/-- A search in which a path to a name that leads to a cycle waits does not end empty-handed. -/
theorem SearchEnds.eq_error_of_leads {answer : Except (List ChunkName) (List ChunkName)}
    (h : SearchEnds l waiting reached answer) :
    ∀ {a : ChunkName} {back : List ChunkName}, a :: back ∈ waiting → l.Leads a →
      ∃ names, answer = .error names := by
  induction h with
  | exhausted => intro a back hmem _; exact nomatch hmem
  | found _ _ _ => intro a back _ _; exact ⟨_, rfl⟩
  | turn _ _ ih =>
      intro a back hmem hleads
      rcases List.mem_cons.1 hmem with rfl | hmem
      · -- it is this path's turn, and one of the names that it goes on to leads to the cycle
        obtain ⟨b, hab, hb⟩ := hleads.exists_child
        exact ih (List.mem_append_right _ (List.mem_map.2 ⟨b, hab, rfl⟩)) hb
      · exact ih (List.mem_append_left _ hmem) hleads

/-- The search from some names misses no cycle that one of them leads to. -/
theorem search_complete {seeds : List ChunkName} (reached : List ChunkName) {a : ChunkName}
    (ha : a ∈ seeds) (h : l.Leads a) : ∃ names, l.search (.start seeds reached) = .error names :=
  (search_start_ends l seeds reached).eq_error_of_leads (List.mem_map.2 ⟨a, ha, rfl⟩) h

/-! ## The names that a search comes to -/

/-- Some path goes on to the name sooner or later. -/
def ComesTo (l : Lattice) (paths : List (List ChunkName)) (name : ChunkName) : Prop :=
  ∃ back ∈ paths, ∃ b ∈ l.ahead back, ReflTransGen l.Child b name

/-- What the paths come to does not change with a turn, apart from the children ahead: the path
    goes on to these at once. -/
theorem comesTo_turn {name : ChunkName} :
    l.ComesTo (back :: waiting) name ↔
      name ∈ l.ahead back ∨ l.ComesTo (waiting ++ (l.ahead back).map (· :: back)) name := by
  constructor
  · rintro ⟨path, hpath, b, hb, hbn⟩
    rcases List.mem_cons.1 hpath with rfl | hpath
    · rcases hbn.cases_head with rfl | ⟨c, hbc, hcn⟩
      · exact Or.inl hb
      · exact Or.inr ⟨b :: path, List.mem_append_right _ (List.mem_map.2 ⟨b, hb, rfl⟩), c, hbc, hcn⟩
    · exact Or.inr ⟨path, List.mem_append_left _ hpath, b, hb, hbn⟩
  · rintro (hname | ⟨path, hpath, b, hb, hbn⟩)
    · exact ⟨back, List.mem_cons_self, name, hname, ReflTransGen.refl⟩
    · rcases List.mem_append.1 hpath with hpath | hpath
      · exact ⟨path, List.mem_cons_of_mem _ hpath, b, hb, hbn⟩
      · obtain ⟨a, ha, rfl⟩ := List.mem_map.1 hpath
        exact ⟨back, List.mem_cons_self, a, ha, ReflTransGen.head hb hbn⟩

/-- A search that closes no cycle adds to the names that were reached exactly those that its paths
    come to. -/
theorem SearchEnds.mem_iff {answer : Except (List ChunkName) (List ChunkName)}
    (h : SearchEnds l waiting reached answer) :
    ∀ {reached' : List ChunkName}, answer = .ok reached' → ∀ {name : ChunkName},
      name ∈ reached' ↔ name ∈ reached ∨ l.ComesTo waiting name := by
  induction h with
  | exhausted =>
      rintro _ ⟨⟩ name
      simp [ComesTo]
  | found _ _ _ => intro _ hno; exact nomatch hno
  | turn _ _ ih =>
      intro reached' hok name
      rw [ih hok, mem_foldl_addNew, comesTo_turn, or_assoc]

/-- A search that closes no cycle adds to the names that were reached exactly those that its seeds
    lead to. -/
theorem mem_reached_iff {seeds reached' : List ChunkName} {name : ChunkName}
    (h : l.search (.start seeds reached) = .ok reached') :
    name ∈ reached' ↔ name ∈ reached ∨ ∃ seed ∈ seeds, ReflTransGen l.Child seed name := by
  rw [(search_start_ends l seeds reached).mem_iff h, mem_foldl_addNew, or_assoc]
  refine or_congr_right ⟨?_, ?_⟩
  · rintro (hseed | ⟨back, hback, b, hb, hbn⟩)
    · exact ⟨name, hseed, ReflTransGen.refl⟩
    · obtain ⟨seed, hseed, rfl⟩ := List.mem_map.1 hback
      exact ⟨seed, hseed, ReflTransGen.head hb hbn⟩
  · rintro ⟨seed, hseed, hlead⟩
    rcases hlead.cases_head with rfl | ⟨b, hb, hbn⟩
    · exact Or.inl hseed
    · exact Or.inr ⟨[seed], List.mem_map.2 ⟨seed, hseed, rfl⟩, b, hb, hbn⟩

/-- The second search starts from the names that no root leads to. -/
theorem mem_unreached_iff (h : l.search (.start l.roots []) = .ok reached) {name : ChunkName} :
    name ∈ l.unreached reached ↔
      name ∈ l.names ∧ ∀ root ∈ l.roots, ¬ ReflTransGen l.Child root name := by
  rw [unreached, List.mem_filter, Bool.not_eq_true', ← Bool.not_eq_true, List.contains_iff_mem,
    mem_reached_iff h]
  simp

/-- What the first search leaves of the cycles is among the seeds of the second. -/
theorem mem_unreached_of_cycle (h : l.search (.start l.roots []) = .ok reached) {a : ChunkName}
    (ha : TransGen l.Child a a) : a ∈ l.unreached reached := by
  rw [mem_unreached_iff h]
  refine ⟨mem_names_of_cycle ha, ?_⟩
  intro root hroot hlead
  obtain ⟨names, hfound⟩ :=
    search_complete [] hroot ((leads_of_cycle ha).of_reflTransGen hlead)
  rw [h] at hfound
  exact nomatch hfound

/-! ## The two searches -/

/-- What is found is found by the first search, or by the second after the first found nothing. -/
theorem findCycle?_eq_some_iff {names : List ChunkName} :
    l.findCycle? = some names ↔
      l.search (.start l.roots []) = .error names ∨
        ∃ reached, l.search (.start l.roots []) = .ok reached ∧
          l.search (.start (l.unreached reached) reached) = .error names := by
  unfold findCycle?
  cases l.search (.start l.roots []) with
  | error found => simp
  | ok reached =>
      cases hsecond : l.search (.start (l.unreached reached) reached) with
      | error found => simp [hsecond]
      | ok _ => simp [hsecond]

/-- Nothing is found exactly when there is no cycle. -/
theorem findCycle?_eq_none_iff : l.findCycle? = none ↔ ∀ a, ¬ TransGen l.Child a a := by
  rw [Option.eq_none_iff_forall_ne_some]
  constructor
  · intro hnone a ha
    cases hfirst : l.search (.start l.roots []) with
    | error names => exact hnone names (findCycle?_eq_some_iff.2 (Or.inl hfirst))
    | ok reached =>
        obtain ⟨names, hsecond⟩ :=
          search_complete reached (mem_unreached_of_cycle hfirst ha) (leads_of_cycle ha)
        exact hnone names (findCycle?_eq_some_iff.2 (Or.inr ⟨reached, hfirst, hsecond⟩))
  · intro hno names hfound
    have hcycle : ∃ a, TransGen l.Child a a := by
      rcases findCycle?_eq_some_iff.1 hfound with hfirst | ⟨reached, -, hsecond⟩
      · exact search_sound hfirst
      · exact search_sound hsecond
    obtain ⟨a, ha⟩ := hcycle
    exact hno a ha

end Lattice

end Literate
