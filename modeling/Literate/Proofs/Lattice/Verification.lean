import Literate.Proofs.Lattice.Cycle

/-! # What the check of a lattice decides

    The check of a compiled lattice is measured against the table alone: which
    names are like files, whether the references run in a circle, and which
    names have no chunk.  Each of the three parts of the check reports exactly
    the names that break its own condition, and all of them together pass
    exactly the tables that can be tangled (`problems_eq_nil_iff`). -/

namespace Literate

namespace ChunkTable

/-- Every chunk that nothing refers to is named like a file. -/
def TopsAreFiles (t : ChunkTable) : Prop :=
  ∀ name ∈ t.keys, (∀ a, ¬ t.Refers a name) → name.isFilename = true

end ChunkTable

namespace Lattice

variable {t : ChunkTable}

/-! ## The three parts of the check -/

/-- The roots that are not named like files. -/
def oddRoots (l : Lattice) : List ChunkName :=
  l.roots.filter fun name => !name.isFilename

/-- The names without a chunk. -/
def missing (l : Lattice) (t : ChunkTable) : List ChunkName :=
  l.names.filter fun name => !t.contains name

theorem mem_oddRoots {name : ChunkName} :
    name ∈ (ofTable t).oddRoots ↔
      name ∈ t.keys ∧ (∀ a, ¬ t.Refers a name) ∧ name.isFilename = false := by
  rw [oddRoots, List.mem_filter, mem_roots_ofTable, Bool.not_eq_true', and_assoc]

theorem oddRoots_sublist (l : Lattice) : l.oddRoots.Sublist l.names := by
  rw [oddRoots, roots_eq_filter]
  exact List.filter_sublist.trans List.filter_sublist

theorem mem_missing {name : ChunkName} :
    name ∈ (ofTable t).missing t ↔ (∃ a, t.Refers a name) ∧ name ∉ t.keys := by
  rw [missing, List.mem_filter, mem_names_ofTable, Bool.not_eq_true',
    ← Bool.not_eq_true, OrderedMap.contains_iff_mem_keys]
  constructor
  · rintro ⟨hkey | href, hno⟩
    · exact absurd hkey hno
    · exact ⟨href, hno⟩
  · rintro ⟨href, hno⟩
    exact ⟨Or.inr href, hno⟩

theorem missing_sublist (l : Lattice) (t : ChunkTable) :
    (l.missing t).Sublist l.names :=
  List.filter_sublist

theorem oddRoots_eq_nil_iff : (ofTable t).oddRoots = [] ↔ t.TopsAreFiles := by
  rw [List.eq_nil_iff_forall_not_mem]
  simp only [mem_oddRoots, not_and, Bool.not_eq_false, ChunkTable.TopsAreFiles]

theorem missing_eq_nil_iff : (ofTable t).missing t = [] ↔ t.Closed := by
  rw [List.eq_nil_iff_forall_not_mem]
  simp only [mem_missing, not_and, not_not, forall_exists_index]
  exact ⟨fun h a b => h b a, fun h b a => h a b⟩

/-- A compiled lattice has a step wherever the table has a reference. -/
theorem child_ofTable : (ofTable t).Child = t.Refers := by
  funext a b
  exact propext mem_children_ofTable

theorem findCycle?_ofTable_eq_none_iff : (ofTable t).findCycle? = none ↔ t.Acyclic := by
  rw [findCycle?_eq_none_iff, child_ofTable]
  exact Iff.rfl

/-! ## All parts together -/

/-- The report names the odd roots, then one cycle, then the missing names, each
    part only if there is something to name. -/
theorem problems_eq (l : Lattice) (t : ChunkTable) :
    l.problems t
      = (if l.oddRoots = [] then [] else [.nonFilenameRoots l.oddRoots])
        ++ (l.findCycle?.map Problem.cycle).toList
        ++ (if l.missing t = [] then [] else [.undefined (l.missing t)]) := by
  have hpart (problem : List ChunkName → Problem) (names : List ChunkName) :
      (problemOf problem names).toList = if names = [] then [] else [problem names] := by
    cases names <;> rfl
  rw [← hpart, ← hpart]
  show [l.checkRoots, l.checkAcyclic, l.checkDefined t].filterMap id = _
  show _ = l.checkRoots.toList ++ l.checkAcyclic.toList ++ (l.checkDefined t).toList
  cases l.checkRoots <;> cases l.checkAcyclic <;> cases l.checkDefined t <;> rfl

/-- The check passes exactly the tables whose tops are files, whose references
    run in no circle, and whose references all have a chunk. -/
theorem problems_eq_nil_iff :
    (ofTable t).problems t = [] ↔ t.TopsAreFiles ∧ t.Acyclic ∧ t.Closed := by
  rw [problems_eq, List.append_eq_nil_iff, List.append_eq_nil_iff,
    ← oddRoots_eq_nil_iff, ← findCycle?_ofTable_eq_none_iff, ← missing_eq_nil_iff,
    and_assoc]
  refine and_congr ?_ (and_congr ?_ ?_)
  · split <;> simp_all
  · cases (ofTable t).findCycle? <;> simp
  · split <;> simp_all

/-- **What the check decides.**  Its searches for cycles come to an end, wherever they
    start, and what the first one leaves of the cycles lies among the names from which
    the second one starts.  The check passes exactly the tables in which every chunk that
    nothing refers to is named like a file, no chunk leads back to itself, and
    every name referred to has a chunk.  Otherwise its report has at most one
    problem of each kind, in this order, each one exactly when its own condition
    fails; the names listed are the offending ones, without repetition and in
    the order of the lattice. -/
theorem problems_ofTable_exact (t : ChunkTable) :
    (∀ s : Search, (ofTable t).SearchEnds s.waiting s.reached ((ofTable t).search s)) ∧
    (∀ reached, (ofTable t).search (.start (ofTable t).roots []) = .ok reached →
      ∀ a, Relation.TransGen t.Refers a a → a ∈ (ofTable t).unreached reached) ∧
    ((ofTable t).problems t = [] ↔
      (∀ name ∈ t.keys, (∀ a, ¬ t.Refers a name) → name.isFilename = true) ∧
      (∀ a, ¬ Relation.TransGen t.Refers a a) ∧
      (∀ a b, t.Refers a b → b ∈ t.keys)) ∧
    ∃ (odd : List ChunkName) (cycle : Option (List ChunkName)) (undefined : List ChunkName),
      (ofTable t).problems t
        = (if odd = [] then [] else [.nonFilenameRoots odd])
          ++ (cycle.map Problem.cycle).toList
          ++ (if undefined = [] then [] else [.undefined undefined]) ∧
      (odd ≠ [] ↔
        ¬ ∀ name ∈ t.keys, (∀ a, ¬ t.Refers a name) → name.isFilename = true) ∧
      (cycle.isSome = true ↔ ¬ ∀ a, ¬ Relation.TransGen t.Refers a a) ∧
      (undefined ≠ [] ↔ ¬ ∀ a b, t.Refers a b → b ∈ t.keys) ∧
      (∀ name, name ∈ odd ↔
        name ∈ t.keys ∧ (∀ a, ¬ t.Refers a name) ∧ name.isFilename = false) ∧
      odd.Nodup ∧ odd.Sublist (ofTable t).names ∧
      (∀ name, name ∈ undefined ↔ (∃ a, t.Refers a name) ∧ name ∉ t.keys) ∧
      undefined.Nodup ∧ undefined.Sublist (ofTable t).names := by
  refine ⟨search_ends (ofTable t), ?_, problems_eq_nil_iff, (ofTable t).oddRoots,
    (ofTable t).findCycle?, (ofTable t).missing t, problems_eq _ t,
    not_congr oddRoots_eq_nil_iff, ?_, not_congr missing_eq_nil_iff, fun _ => mem_oddRoots, ?_,
    oddRoots_sublist _, fun _ => mem_missing, ?_, missing_sublist _ t⟩
  · intro reached hfirst a ha
    rw [← child_ofTable] at ha
    exact mem_unreached_of_cycle hfirst ha
  · rw [Option.isSome_iff_ne_none]
    exact not_congr findCycle?_ofTable_eq_none_iff
  · exact (nodup_names _).sublist (oddRoots_sublist _)
  · exact (nodup_names _).sublist (missing_sublist _ t)

end Lattice

end Literate
