import Literate.Proofs.Lattice.Cycle
import Literate.Proofs.Lattice.Growth
import Mathlib.Data.List.Nodup

/-! # The cycle that is reported

    Paths take their turns in the order of their lengths, and every walk takes its
    turn unless a shorter one has closed a cycle.  So the first cycle that is
    closed ends a shortest walk.

    * `Frontier` says what the waiting paths are: walks from the starts without
      repetition, first those with some number of names and then those with one
      name more.  Every walk of the first length still waits, or has gone on to all
      its children.  No walk up to that length comes to a name twice.
      It holds of the starts (`frontier_starts`) and is kept by every turn that
      closes nothing (`Frontier.turn`, `Frontier.advance`).
    * A path that closes a cycle is then one step short of a shortest walk that
      comes to a name twice (`Frontier.found`, `SearchEnds.shortest`).
    * In the second search every name of every cycle is a start, so a cycle is
      such a walk itself (`IsCycle.revisits`), and what is reported is no longer
      than any cycle. -/

namespace Literate

namespace Lattice

open Relation

variable {l : Lattice} {starts : List ChunkName}

/-- Names along edges that come back to the first and meet no other name twice. -/
structure IsCycle (l : Lattice) (names : List ChunkName) : Prop where
  two : 2 ≤ names.length
  closed : names.head? = names.getLast?
  distinct : names.dropLast.Nodup
  steps : names.IsChain l.Child

/-- A walk from one of the starts that comes to a name twice. -/
structure Revisits (l : Lattice) (starts walk : List ChunkName) : Prop where
  start : ∃ s ∈ starts, walk.head? = some s
  steps : walk.IsChain l.Child
  again : ¬ walk.Nodup

/-- The names are the end of a walk that comes to a name twice in its last step and not
    before, and no walk from the starts comes to a name twice in fewer steps. -/
structure Shortest (l : Lattice) (starts walk names : List ChunkName) : Prop where
  revisits : l.Revisits starts walk
  before : walk.dropLast.Nodup
  ends : names <:+ walk
  least : ∀ other, l.Revisits starts other → walk.length ≤ other.length

instance (l : Lattice) : DecidableRel l.Child :=
  fun a b => inferInstanceAs (Decidable (b ∈ l.children a))

/-! ## Walks from the starts -/

/-- A walk from one of the starts, given backwards. -/
def WalkFrom (l : Lattice) (starts back : List ChunkName) : Prop :=
  l.Walk back ∧ ∃ s ∈ starts, back.getLast? = some s

theorem walkFrom_singleton {a : ChunkName} : l.WalkFrom starts [a] ↔ a ∈ starts := by
  constructor
  · rintro ⟨-, s, hs, hlast⟩
    obtain rfl : a = s := Option.some.inj hlast
    exact hs
  · intro ha
    exact ⟨List.isChain_singleton a, a, ha, rfl⟩

theorem walkFrom_cons_cons {a b : ChunkName} {back : List ChunkName} :
    l.WalkFrom starts (b :: a :: back) ↔ l.Child a b ∧ l.WalkFrom starts (a :: back) := by
  rw [WalkFrom, WalkFrom, Walk, List.isChain_cons_cons, List.getLast?_cons_cons, and_assoc]
  exact Iff.rfl

/-- A walk that goes on is a walk from the same start. -/
theorem WalkFrom.extend {child : ChunkName} {back : List ChunkName}
    (h : l.WalkFrom starts back) (hchild : child ∈ l.ahead back) :
    l.WalkFrom starts (child :: back) := by
  cases back with
  | nil => exact nomatch hchild
  | cons a rest => exact walkFrom_cons_cons.mpr ⟨hchild, h⟩

/-- A walk comes to its last name from the walk behind it. -/
theorem WalkFrom.behind {b : ChunkName} {back : List ChunkName}
    (h : l.WalkFrom starts (b :: back)) (hne : back ≠ []) :
    b ∈ l.ahead back ∧ l.WalkFrom starts back := by
  cases back with
  | nil => exact absurd rfl hne
  | cons a rest => exact walkFrom_cons_cons.mp h

theorem revisits_iff {walk : List ChunkName} :
    l.Revisits starts walk ↔ l.WalkFrom starts walk.reverse ∧ ¬ walk.reverse.Nodup := by
  rw [WalkFrom, Walk, List.isChain_reverse, List.getLast?_reverse, List.nodup_reverse]
  exact ⟨fun h => ⟨⟨h.steps, h.start⟩, h.again⟩, fun h => ⟨h.1.2, h.1.1, h.2⟩⟩

/-- A walk that steps on to one of its own names ends in a name that leads to a cycle. -/
theorem Walk.leads {a b : ChunkName} {back : List ChunkName} (h : l.Walk (a :: back))
    (hab : l.Child a b) (hb : b ∈ a :: back) : l.Leads a :=
  leads_of_cycle (TransGen.head' hab (h.reflTransGen hb))

/-- Where a walk comes to a name twice, its start leads to a cycle. -/
theorem WalkFrom.exists_leads {back : List ChunkName} (h : l.WalkFrom starts back)
    (hagain : ¬ back.Nodup) : ∃ s ∈ starts, l.Leads s := by
  induction back with
  | nil => exact absurd List.nodup_nil hagain
  | cons b back ih =>
      cases back with
      | nil => exact absurd (List.pairwise_singleton _ b) hagain
      | cons a rest =>
          obtain ⟨hab, hback⟩ := walkFrom_cons_cons.mp h
          by_cases hb : b ∈ a :: rest
          · obtain ⟨hwalk, s, hs, hlast⟩ := hback
            have hsa : ReflTransGen l.Child s a :=
              hwalk.reflTransGen (List.mem_of_getLast? hlast)
            exact ⟨s, hs, (hwalk.leads hab hb).of_reflTransGen hsa⟩
          · exact ih hback fun hnodup => hagain (List.nodup_cons.mpr ⟨hb, hnodup⟩)

theorem Revisits.exists_leads {walk : List ChunkName} (h : l.Revisits starts walk) :
    ∃ s ∈ starts, l.Leads s := by
  obtain ⟨hwalk, hagain⟩ := revisits_iff.mp h
  exact hwalk.exists_leads hagain

/-! ## The paths that wait -/

/-- What the waiting paths are, as long as none closed a cycle: those that still have `k` names,
    and behind them those that have gone on, with one name more. -/
structure Frontier (l : Lattice) (starts : List ChunkName) (k : Nat)
    (now next : List (List ChunkName)) : Prop where
  pos : 0 < k
  walks : ∀ back ∈ now, l.WalkFrom starts back ∧ back.Nodup ∧ back.length = k
  longer : ∀ back ∈ next, l.WalkFrom starts back ∧ back.Nodup ∧ back.length = k + 1
  complete : ∀ back, l.WalkFrom starts back → back.length = k →
    back ∈ now ∨ ∀ child ∈ l.ahead back, child ∉ back ∧ child :: back ∈ next
  fresh : ∀ back, l.WalkFrom starts back → back.length ≤ k → back.Nodup

theorem frontier_starts (l : Lattice) (starts : List ChunkName) :
    l.Frontier starts 1 (starts.map ([·])) [] where
  pos := Nat.one_pos
  walks := by
    intro back hback
    obtain ⟨a, ha, rfl⟩ := List.mem_map.mp hback
    exact ⟨walkFrom_singleton.mpr ha, List.pairwise_singleton _ a, rfl⟩
  longer := by
    intro back hback
    exact nomatch hback
  complete := by
    intro back hwalk hlen
    obtain ⟨a, rfl⟩ := List.length_eq_one_iff.mp hlen
    exact Or.inl (List.mem_map.mpr ⟨a, walkFrom_singleton.mp hwalk, rfl⟩)
  fresh := by
    intro back _ hlen
    match back, hlen with
    | [], _ => exact List.nodup_nil
    | [a], _ => exact List.pairwise_singleton _ a

/-- When all paths with `k` names have gone on, a walk with one name more is one that waits, and its
    last name is new on it. -/
theorem Frontier.exists_cons_of_nil {k : Nat} {back : List ChunkName}
    {next : List (List ChunkName)} (h : l.Frontier starts k [] next)
    (hwalk : l.WalkFrom starts back) (hlen : back.length = k + 1) :
    ∃ b rest, back = b :: rest ∧ l.WalkFrom starts rest ∧ rest.length = k ∧ b ∉ rest ∧
      b :: rest ∈ next := by
  obtain ⟨b, rest, rfl⟩ := List.exists_cons_of_length_eq_add_one hlen
  have hk : rest.length = k := Nat.succ.inj hlen
  obtain ⟨hb, hrest⟩ := hwalk.behind (List.ne_nil_of_length_pos (hk ▸ h.pos))
  rcases h.complete rest hrest hk with hmem | hgone
  · exact nomatch hmem
  · exact ⟨b, rest, rfl, hrest, hk, hgone b hb⟩

/-- When all paths with `k` names have gone on, those with one name more are next. -/
theorem Frontier.advance {k : Nat} {next : List (List ChunkName)}
    (h : l.Frontier starts k [] next) : l.Frontier starts (k + 1) next [] where
  pos := Nat.succ_pos k
  walks := h.longer
  longer := by
    intro back hback
    exact nomatch hback
  complete := by
    intro back hwalk hlen
    obtain ⟨b, rest, rfl, -, -, -, hmem⟩ := h.exists_cons_of_nil hwalk hlen
    exact Or.inl hmem
  fresh := by
    intro back hwalk hlen
    rcases hlen.lt_or_eq with hlt | heq
    · exact h.fresh back hwalk (Nat.le_of_lt_succ hlt)
    · obtain ⟨b, rest, rfl, hrest, hk, hb, -⟩ := h.exists_cons_of_nil hwalk heq
      exact List.nodup_cons.mpr ⟨hb, h.fresh rest hrest hk.le⟩

/-- A path that closes nothing goes on, and the paths that it goes on to wait behind all others. -/
theorem Frontier.turn {k : Nat} {back : List ChunkName} {now next : List (List ChunkName)}
    (h : l.Frontier starts k (back :: now) next) (hnew : ∀ child ∈ l.ahead back, child ∉ back) :
    l.Frontier starts k now (next ++ (l.ahead back).map (· :: back)) where
  pos := h.pos
  walks := fun path hpath => h.walks path (List.mem_cons_of_mem _ hpath)
  longer := by
    intro path hpath
    rcases List.mem_append.mp hpath with hpath | hpath
    · exact h.longer path hpath
    · obtain ⟨child, hchild, rfl⟩ := List.mem_map.mp hpath
      obtain ⟨hwalk, hnodup, hlen⟩ := h.walks back List.mem_cons_self
      exact ⟨hwalk.extend hchild, List.nodup_cons.mpr ⟨hnew child hchild, hnodup⟩,
        congrArg (· + 1) hlen⟩
  complete := by
    intro path hwalk hlen
    rcases h.complete path hwalk hlen with hmem | hgone
    · rcases List.mem_cons.mp hmem with rfl | hmem
      · refine Or.inr fun child hchild => ⟨hnew child hchild, ?_⟩
        exact List.mem_append_right _ (List.mem_map.mpr ⟨child, hchild, rfl⟩)
      · exact Or.inl hmem
    · refine Or.inr fun child hchild => ⟨(hgone child hchild).1, ?_⟩
      exact List.mem_append_left _ (hgone child hchild).2
  fresh := h.fresh

/-- The path whose turn it is is one of the shorter ones. -/
theorem Frontier.exists_cons {k : Nat} {back : List ChunkName}
    {now next waiting : List (List ChunkName)} (h : l.Frontier starts k now next)
    (hqueue : back :: waiting = now ++ next) :
    ∃ k' now' next', l.Frontier starts k' (back :: now') next' ∧ waiting = now' ++ next' := by
  cases now with
  | nil =>
      obtain rfl : back :: waiting = next := hqueue
      exact ⟨k + 1, waiting, [], h.advance, (List.append_nil waiting).symm⟩
  | cons first now =>
      obtain ⟨rfl, rfl⟩ := List.cons.inj hqueue
      exact ⟨k, now, next, h, rfl⟩

/-- What the first closing path closes is a cycle at the end of a shortest walk. -/
theorem Frontier.found {k : Nat} {back : List ChunkName} {now next : List (List ChunkName)}
    {again : ChunkName} (h : l.Frontier starts k (back :: now) next)
    (hahead : again ∈ l.ahead back) (hmeets : again ∈ back) :
    l.IsCycle (closing back.reverse again) ∧
      ∃ walk, l.Shortest starts walk (closing back.reverse again) := by
  obtain ⟨hwalk, hnodup, hlen⟩ := h.walks back List.mem_cons_self
  have hagain : ¬ (again :: back).Nodup := fun hn => (List.nodup_cons.mp hn).1 hmeets
  have hreverse : (back.reverse ++ [again]).reverse = again :: back := by
    rw [List.reverse_append, List.reverse_reverse]
    rfl
  have hrevisits : l.Revisits starts (back.reverse ++ [again]) := by
    rw [revisits_iff, hreverse]
    exact ⟨hwalk.extend hahead, hagain⟩
  have hdistinct : back.reverse.Nodup := List.nodup_reverse.mpr hnodup
  obtain ⟨htwo, hends, honce, hsteps⟩ :=
    closing_goes_round (List.mem_reverse.mpr hmeets) hdistinct hrevisits.steps
  refine ⟨⟨htwo, hends, honce, hsteps⟩, back.reverse ++ [again], hrevisits, ?_,
    closing_suffix _ _, ?_⟩
  · rw [List.dropLast_concat]
    exact hdistinct
  · intro other hother
    obtain ⟨hfrom, htwice⟩ := revisits_iff.mp hother
    have hlonger : k < other.reverse.length :=
      Nat.lt_of_not_le fun hle => htwice (h.fresh _ hfrom hle)
    rw [List.length_append, List.length_reverse, List.length_singleton, hlen]
    rw [List.length_reverse] at hlonger
    exact hlonger

/-- What a search from some starts ends with is closed by a shortest walk from there. -/
theorem SearchEnds.shortest {names reached : List ChunkName} {waiting : List (List ChunkName)}
    {answer : Except (List ChunkName) (List ChunkName)} (h : SearchEnds l waiting reached answer) :
    ∀ {k : Nat} {now next : List (List ChunkName)}, l.Frontier starts k now next →
      waiting = now ++ next → answer = .error names →
      l.IsCycle names ∧ ∃ walk, l.Shortest starts walk names := by
  induction h with
  | exhausted => intro _ _ _ _ _ hno; exact nomatch hno
  | found hahead _ hchild =>
      intro k now next hk hqueue hnames
      obtain ⟨k', now', next', hk', -⟩ := hk.exists_cons hqueue
      obtain rfl := Except.error.inj hnames
      exact hk'.found (hahead ▸ List.mem_append_right _ List.mem_cons_self) hchild
  | turn hnew _ ih =>
      intro k now next hk hqueue
      obtain ⟨k', now', next', hk', rfl⟩ := hk.exists_cons hqueue
      exact ih (hk'.turn hnew) (List.append_assoc _ _ _)

theorem search_shortest {names reached : List ChunkName}
    (h : l.search (.start starts reached) = .error names) :
    l.IsCycle names ∧ ∃ walk, l.Shortest starts walk names :=
  (search_start_ends l starts reached).shortest (frontier_starts l starts)
    (List.append_nil _).symm h

/-! ## Cycles as walks -/

/-- Where every name on a cycle is a start, a cycle is a walk from a start that comes to that start
    again. -/
theorem IsCycle.revisits {cycle : List ChunkName} (h : l.IsCycle cycle)
    (hstarts : ∀ a, TransGen l.Child a a → a ∈ starts) : l.Revisits starts cycle := by
  match cycle, h with
  | first :: second :: rest, h =>
      have hlast : (first :: second :: rest).getLast? = some first := h.closed.symm
      have hmem : first ∈ second :: rest := by
        rw [List.getLast?_cons_cons] at hlast
        exact List.mem_of_getLast? hlast
      have hstep : l.Child first second := (List.isChain_cons_cons.mp h.steps).1
      -- backwards, the walk from the second name comes to the first
      have hround : ReflTransGen l.Child second first := by
        obtain ⟨init, hinit⟩ := List.getLast?_eq_some_iff.mp hlast
        have hwalk : l.Walk (first :: init.reverse) := by
          have hback := List.isChain_reverse.mpr h.steps
          rw [hinit, List.reverse_append] at hback
          exact hback
        refine hwalk.reflTransGen ?_
        rw [← List.mem_reverse, List.reverse_cons, List.reverse_reverse, ← hinit]
        exact List.mem_cons_of_mem _ List.mem_cons_self
      exact ⟨⟨first, hstarts first (TransGen.head' hstep hround), rfl⟩, h.steps,
        fun hn => (List.nodup_cons.mp hn).1 hmem⟩
  | [_], h => exact absurd h.two (Nat.not_succ_le_self 1)
  | [], h => exact absurd h.two (Nat.not_succ_le_zero 1)

/-- **The cycle that is reported.**  It is a cycle of the lattice.  If some root leads to
    a cycle, it is the end of a walk from a root that comes to a name twice in its
    last step, and no walk from a root comes to a name twice in fewer steps.
    Otherwise no cycle of the lattice is shorter. -/
theorem reported_cycle_is_shortest (as : List Addition) (names : List ChunkName)
    (h : (ofAdditions as).checkAcyclic = some (.cycle names)) :
    (ofAdditions as).IsCycle names ∧
      ((∃ root ∈ (ofAdditions as).roots, (ofAdditions as).Leads root) →
        ∃ walk, (ofAdditions as).Shortest (ofAdditions as).roots walk names) ∧
      ((¬ ∃ root ∈ (ofAdditions as).roots, (ofAdditions as).Leads root) →
        ∀ cycle, (ofAdditions as).IsCycle cycle → names.length ≤ cycle.length) := by
  have hfound : (ofAdditions as).findCycle? = some names := by
    obtain ⟨found, hfound, heq⟩ := Option.map_eq_some_iff.mp h
    rw [hfound, Problem.cycle.inj heq]
  generalize ofAdditions as = l at hfound ⊢
  rcases findCycle?_eq_some_iff.mp hfound with hfirst | ⟨reached, hfirst, hsecond⟩
  · obtain ⟨hcycle, walk, hwalk⟩ := search_shortest hfirst
    exact ⟨hcycle, fun _ => ⟨walk, hwalk⟩, fun hno => absurd hwalk.revisits.exists_leads hno⟩
  · obtain ⟨hcycle, walk, hwalk⟩ := search_shortest hsecond
    refine ⟨hcycle, ?_, fun _ cycle hc => ?_⟩
    · rintro ⟨root, hroot, hleads⟩
      obtain ⟨found, hfound⟩ := search_complete [] hroot hleads
      rw [hfirst] at hfound
      exact nomatch hfound
    · -- the cycles that are left lie among the seeds of the second search
      have hagain := hc.revisits fun a ha => mem_unreached_of_cycle hfirst ha
      exact hwalk.ends.length_le.trans (hwalk.least cycle hagain)

/-- Edges on which two walks from the root come to a name twice, one through `ff` and a
    longer one through `gg`. -/
def detour : List Addition :=
  [("aa.txt", "bb"), ("bb", "cc"), ("bb", "dd"), ("dd", "ee"), ("ee", "ff"), ("ff", "dd"),
    ("dd", "gg"), ("gg", "ee")].map fun e => .edge (.ofString e.1) (.ofString e.2)

/-- Edges on which the cycles are out of the root's reach. -/
def island : List Addition :=
  [("x.txt", "leaf"), ("c", "a"), ("a", "b"), ("b", "a"), ("b", "c")].map fun e =>
    .edge (.ofString e.1) (.ofString e.2)

theorem detour_and_island_reported :
    ((ofAdditions detour).checkAcyclic = some (.cycle (["dd", "ee", "ff", "dd"].map .ofString)) ∧
      (ofAdditions detour).IsCycle (["dd", "ee", "ff", "dd"].map .ofString) ∧
      ∃ walk, (ofAdditions detour).Shortest (ofAdditions detour).roots walk
        (["dd", "ee", "ff", "dd"].map .ofString)) ∧
    (ofAdditions island).checkAcyclic = some (.cycle (["a", "b", "a"].map .ofString)) ∧
      (ofAdditions island).IsCycle (["a", "b", "a"].map .ofString) ∧
      ∀ cycle, (ofAdditions island).IsCycle cycle → 3 ≤ cycle.length := by
  have hdetour : (ofAdditions detour).checkAcyclic
      = some (.cycle (["dd", "ee", "ff", "dd"].map .ofString)) := by decide +kernel
  have hisland : (ofAdditions island).checkAcyclic
      = some (.cycle (["a", "b", "a"].map .ofString)) := by decide +kernel
  obtain ⟨hcycle, hreached, -⟩ := reported_cycle_is_shortest detour _ hdetour
  obtain ⟨hcycle', -, hunreached⟩ := reported_cycle_is_shortest island _ hisland
  refine ⟨⟨hdetour, hcycle, hreached ?_⟩, hisland, hcycle', hunreached ?_⟩
  · have hwalk : (ofAdditions detour).Revisits (ofAdditions detour).roots
        (["aa.txt", "bb", "dd", "ee", "ff", "dd"].map .ofString) :=
      ⟨⟨.ofString "aa.txt", by decide +kernel, rfl⟩, by decide +kernel, by decide +kernel⟩
    exact hwalk.exists_leads
  · rintro ⟨root, hroot, hleads⟩
    have hfirst : (ofAdditions island).search (.start (ofAdditions island).roots [])
        = .ok (["x.txt", "leaf"].map .ofString) := by decide +kernel
    obtain ⟨names, hfound⟩ := search_complete [] hroot hleads
    rw [hfirst] at hfound
    exact nomatch hfound

end Lattice

end Literate
