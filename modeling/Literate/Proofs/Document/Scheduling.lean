import Literate.Proofs.Document.Discovery
import Literate.Proofs.Path.Location

/-! # Each document is scheduled once

    A document can be linked to by many paths.  The list of documents holds their
    normal forms, and normal forms tell apart exactly what lies in different
    places (`Path.normalize_eq_iff_samePlace`).  So a second link to a place that is on
    the list changes nothing (`Document.schedule_resolveLink_of_samePlace`), and no two
    documents of a run lie in the same place (`Scan.pairwise_not_samePlace`). -/

namespace Literate

namespace Document

/-- A document that was just put on the list is there already. -/
theorem schedule_schedule (d : Document) (p : Path) :
    (d.schedule p).schedule p = d.schedule p := by
  have hthere : (d.schedule p).inputs.contains p = true := by
    rw [schedule, addNew]
    split
    · next hold => exact hold
    · exact List.contains_iff_exists_mem_beq.mpr
        ⟨p, List.mem_append_right _ List.mem_cons_self, BEq.rfl⟩
  rw [schedule.eq_1 (d.schedule p), addNew, if_pos hthere]

/-- Links to one place put one document on the list. -/
theorem schedule_resolveLink_of_samePlace (d : Document) {f f' : Path} {target target' : Text}
    (h : (f.parent.join ⟨target⟩).SamePlace (f'.parent.join ⟨target'⟩)) :
    (d.schedule (Path.resolveLink f target)).schedule (Path.resolveLink f' target')
      = d.schedule (Path.resolveLink f target) := by
  have hsame : Path.resolveLink f target = Path.resolveLink f' target' :=
    Path.normalize_eq_iff_samePlace.mpr h
  rw [← hsame, schedule_schedule]

end Document

namespace Scan

variable {read : Path → Except Fault Text} {root : Path} {book : Bool}

/-- No document is found twice. -/
theorem distinct_found :
    (found read root book).Pairwise fun p q => (p == q) = false := by
  cases hread : read root.normalize with
  | error fault =>
      rw [found, hread]
      exact List.pairwise_singleton _ _
  | ok content =>
      cases book with
      | false =>
          rw [found, hread]
          exact List.pairwise_singleton _ _
      | true =>
          have hroot : (Document.empty.schedule root.normalize).Distinct :=
            List.pairwise_singleton _ _
          have hgrown := (Document.grows_foldl_schedule
            ((outsideLines content.lines).flatMap (Document.linkedFrom root.normalize))
            (Document.empty.schedule root.normalize)).distinct hroot
          rw [Document.Distinct, Document.inputs_foldl_schedule] at hgrown
          rw [found_eq_foldl hread]
          exact hgrown

/-- The documents of a run lie in different places. -/
theorem pairwise_not_samePlace (read : Path → Except Fault Text) (root : Path) (book : Bool) :
    (run read root book).document.inputs.Pairwise fun f g => ¬ f.SamePlace g := by
  rw [inputs_eq_found]
  refine distinct_found.imp_of_mem ?_
  intro f g hf hg hne hsame
  rw [← Path.normalize_eq_iff_samePlace, normalize_of_mem_found hf, normalize_of_mem_found hg]
    at hsame
  rw [hsame, BEq.rfl] at hne
  cases hne

end Scan

/-- **Normal forms are canonical.**  A normal path has no dot, and `..` only in front, if it is
    relative; it is its own normal form.  Two paths have the same normal form exactly if
    they lead to the same place from every directory, and a path joined to a
    directory may as well be joined to the normal form of the directory.  So links that
    lead to one place put one document on the list, however they are spelled, and no
    two documents of a run lie in the same place. -/
theorem normal_forms_are_canonical :
    (∀ p : Path, .here ∉ p.normalize.components ∧
      (∀ before after, p.normalize.components = before ++ .up :: after →
        p.normalize.isAbsolute = false ∧ ∀ c ∈ before, c = .up) ∧
      p.normalize.normalize = p.normalize) ∧
    (∀ p q : Path, (p.normalize = q.normalize ↔ p.SamePlace q) ∧
      ((p.normalize == q.normalize) = true ↔ p.SamePlace q)) ∧
    (∀ p q : Path, (p.join q).normalize = (p.normalize.join q).normalize) ∧
    (∀ (d : Document) (f f' : Path) (target target' : Text),
      (f.parent.join ⟨target⟩).SamePlace (f'.parent.join ⟨target'⟩) →
      (d.schedule (Path.resolveLink f target)).schedule (Path.resolveLink f' target')
        = d.schedule (Path.resolveLink f target)) ∧
    ∀ (read : Path → Except Fault Text) (root : Path) (book : Bool),
      (Scan.run read root book).document.inputs.Pairwise fun f g => ¬ f.SamePlace g := by
  refine ⟨fun p => ⟨?_, fun before after hup => ?_, Path.normalize_normalize p⟩,
    fun p q => ⟨Path.normalize_eq_iff_samePlace, ?_⟩, fun p q => ?_,
    fun d f f' target target' => d.schedule_resolveLink_of_samePlace,
    Scan.pairwise_not_samePlace⟩
  · rw [Path.components_normalize, List.mem_reverse]
    exact p.settled_settled.here_notMem
  · rw [Path.components_normalize] at hup
    rw [Path.isAbsolute_normalize]
    exact p.settled_settled.up_leads hup
  · rw [← Path.normalize_eq_iff_samePlace]
    constructor
    · exact Path.eq_of_beq_of_normal (Path.normalize_normalize p) (Path.normalize_normalize q)
    · intro h
      rw [h]
      exact BEq.rfl
  · rw [Path.normalize_eq_iff]
    exact Path.settled_join_congr p.settled_normalize.symm q

/-- Two spellings of one link, from pages in different folders, and a path that leads elsewhere. -/
theorem spellings_scheduled_once :
    ((Path.mk "d/b.md".toList).parent.join ⟨"../c.md".toList⟩).SamePlace
      ((Path.mk "e.md".toList).parent.join ⟨"./x/../c.md".toList⟩) ∧
    ¬ (Path.mk "c.md".toList).SamePlace ⟨"../c.md".toList⟩ ∧
    ((Document.empty.schedule (Path.resolveLink ⟨"d/b.md".toList⟩ "../c.md".toList)).schedule
        (Path.resolveLink ⟨"e.md".toList⟩ "./x/../c.md".toList)).inputs.map Path.spelling
      = ["c.md".toList] := by
  obtain ⟨-, hplaces, -, honce, -⟩ := normal_forms_are_canonical
  have hsame : ((Path.mk "d/b.md".toList).parent.join ⟨"../c.md".toList⟩).SamePlace
      ((Path.mk "e.md".toList).parent.join ⟨"./x/../c.md".toList⟩) := by
    refine (hplaces _ _).1.mp (congrArg Path.mk ?_)
    decide +kernel
  refine ⟨hsame, fun hother => ?_, ?_⟩
  · have hspelling := congrArg Path.spelling ((hplaces _ _).1.mpr hother)
    revert hspelling
    decide +kernel
  · rw [honce _ _ _ _ _ hsame]
    decide +kernel

end Literate
