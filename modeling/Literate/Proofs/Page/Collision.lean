import Literate.Proofs.Build.Effects
import Literate.Proofs.Path.Extension

/-! # Documents that share a page

    The name of a page forgets two things about its document: the extension, and,
    for a document above the directory of the root, the names that the output
    directory does not have.  So two documents can have one page.  Then the
    later of them is what the page shows (`Document.page_of_last`), and nothing
    says so.

    Whether each document has a page of its own is decided by where the documents
    lie (`Scan.one_page_each_iff`).  Below the directory of the root two of them
    share a page exactly if they differ in their extension alone. -/

namespace Literate

namespace Document

/-- Each document has a page that no other one has, and whatever is in a store, that page is
    there when all pages have been written. -/
def OnePageEach (d : Document) : Prop :=
  (∀ f ∈ d.inputs, ∀ g ∈ d.inputs, d.outputFor? f = d.outputFor? g → (f == g) = true) ∧
  ∀ (render : Text → Text) (lattice : Lattice) (marker : Text) (s : Store),
    (Step.performAll (Store.fileSystem .none).put (Job.weavePlan render d lattice marker) s).1.2
      = none ∧
    ∀ f ∈ d.inputs, ∃ page, d.outputFor? f = some page ∧
      (Step.performAll (Store.fileSystem .none).put (Job.weavePlan render d lattice marker)
        s).2.contents? page = some (render (d.annotate lattice marker f))

variable {d : Document}

/-- All pages are written. -/
theorem performAll_weavePlan (h : d.Distinct) (outDir : Path) (render : Text → Text)
    (lattice : Lattice) (marker : Text) (s : Store) :
    (Step.performAll (Store.fileSystem .none).put
      (Job.weavePlan render (d.assignOutputs outDir) lattice marker) s).1.2 = none ∧
    (Step.performAll (Store.fileSystem .none).put
      (Job.weavePlan render (d.assignOutputs outDir) lattice marker) s).2.contents?
        = afterWrites s.contents? (d.inputs.map fun input => (.outputName input d.rootDir outDir,
            render ((d.assignOutputs outDir).annotate lattice marker input))) := by
  have hsound := Job.sound_weavePlan (isSome_outputFor? h outDir) render lattice marker
  have hnone := Step.performAll_of_sound Store.neverFails hsound s
  have hcarried := Step.performAll_carried (Store.limited .none) hsound s
  rw [hnone, Job.planned_weavePlan h] at hcarried
  refine ⟨hnone, ?_⟩
  obtain ⟨-, -, hafter⟩ | ⟨fault, j, further, hfault, -⟩ := hcarried
  · exact hafter
  · cases hfault

/-- A page shows the last document that it is the page of. -/
theorem page_of_last (h : d.Distinct) (outDir : Path) {before after : List Path} {f page : Path}
    (hinputs : d.inputs = before ++ f :: after)
    (hpage : (d.assignOutputs outDir).outputFor? f = some page)
    (hafter : ∀ g ∈ after, (d.assignOutputs outDir).outputFor? g ≠ some page)
    (render : Text → Text) (lattice : Lattice) (marker : Text) (s : Store) :
    (Step.performAll (Store.fileSystem .none).put
      (Job.weavePlan render (d.assignOutputs outDir) lattice marker) s).2.contents? page
        = some (render ((d.assignOutputs outDir).annotate lattice marker f)) := by
  have hf : f ∈ d.inputs := by
    rw [hinputs]
    exact List.mem_append_right _ List.mem_cons_self
  have hname : Path.outputName f d.rootDir outDir = page := by
    rw [outputFor?_assignOutputs h outDir hf] at hpage
    exact Option.some.inj hpage
  rw [(performAll_weavePlan h outDir render lattice marker s).2, hinputs, List.map_append,
    List.map_cons]
  refine afterWrites_last (beq_of_eq hname) ?_
  intro w hw
  obtain ⟨g, hg, rfl⟩ := List.mem_map.mp hw
  have hg' : g ∈ d.inputs := by
    rw [hinputs]
    exact List.mem_append_right _ (List.mem_cons_of_mem _ hg)
  refine Bool.eq_false_iff.mpr fun hsame => hafter g hg ?_
  have hnormal : page.normalize = page := by
    rw [← hname]
    exact Path.normalize_outputName f d.rootDir outDir
  rw [outputFor?_assignOutputs h outDir hg', Path.eq_of_beq_of_normal
    (Path.normalize_outputName g d.rootDir outDir) hnormal hsame]

theorem outputFor?_eq_iff (h : d.Distinct) (outDir : Path) {f g : Path} (hf : f ∈ d.inputs)
    (hg : g ∈ d.inputs) :
    (d.assignOutputs outDir).outputFor? f = (d.assignOutputs outDir).outputFor? g ↔
      Path.outputName f d.rootDir outDir = Path.outputName g d.rootDir outDir := by
  rw [outputFor?_assignOutputs h outDir hf, outputFor?_assignOutputs h outDir hg, Option.some.injEq]

/-- If no two documents share a page, each has one of its own. -/
theorem onePageEach_iff (h : d.Distinct) (outDir : Path) :
    (d.assignOutputs outDir).OnePageEach ↔
      ∀ f ∈ d.inputs, ∀ g ∈ d.inputs,
        (d.assignOutputs outDir).outputFor? f = (d.assignOutputs outDir).outputFor? g →
          (f == g) = true := by
  refine ⟨And.left, fun hdistinct => ⟨hdistinct, fun render lattice marker s =>
    ⟨(performAll_weavePlan h outDir render lattice marker s).1, fun f hf => ?_⟩⟩⟩
  have hf : f ∈ d.inputs := hf
  have hpage := outputFor?_assignOutputs h outDir hf
  obtain ⟨before, after, hinputs⟩ := List.append_of_mem hf
  refine ⟨_, hpage, page_of_last h outDir hinputs hpage ?_ render lattice marker s⟩
  -- a later document with this page would be the same document again
  intro g hg heq
  have hother : (f == g) = false := by
    have hpairwise := h
    rw [Distinct, hinputs] at hpairwise
    exact (List.pairwise_cons.mp (List.pairwise_append.mp hpairwise).2.1).1 g hg
  have hg' : g ∈ d.inputs := by
    rw [hinputs]
    exact List.mem_append_right _ (List.mem_cons_of_mem _ hg)
  rw [hdistinct f hf g hg' (hpage.trans heq.symm)] at hother
  cases hother

/-- Documents without a place aside, it is the places that tell. -/
theorem onePageEach_iff_placed (h : d.Distinct) (outDir : Path) :
    (d.assignOutputs outDir).OnePageEach ↔
      (∀ f ∈ d.inputs, ∀ g ∈ d.inputs, ∀ dir stem,
        Path.Placed d.rootDir outDir f dir stem → Path.Placed d.rootDir outDir g dir stem →
          (f == g) = true) ∧
      ∀ f ∈ d.inputs, (¬ ∃ dir stem, Path.Placed d.rootDir outDir f dir stem) →
        ∀ g ∈ d.inputs, (d.assignOutputs outDir).outputFor? f
          = (d.assignOutputs outDir).outputFor? g → (f == g) = true := by
  rw [onePageEach_iff h]
  constructor
  · intro hpages
    refine ⟨fun f hf g hg dir stem hfp hgp => hpages f hf g hg ?_,
      fun f hf _ g hg => hpages f hf g hg⟩
    rw [outputFor?_eq_iff h outDir hf hg, hfp.outputName_eq_iff hgp]
    exact ⟨rfl, rfl⟩
  · rintro ⟨hplaces, hplaceless⟩ f hf g hg heq
    by_cases hfp : ∃ dir stem, Path.Placed d.rootDir outDir f dir stem
    · by_cases hgp : ∃ dir stem, Path.Placed d.rootDir outDir g dir stem
      · obtain ⟨dir, stem, hfp⟩ := hfp
        obtain ⟨dir', stem', hgp⟩ := hgp
        rw [outputFor?_eq_iff h outDir hf hg, hfp.outputName_eq_iff hgp] at heq
        obtain ⟨rfl, rfl⟩ := heq
        exact hplaces f hf g hg dir stem hfp hgp
      · exact BEq.symm (hplaceless g hg hgp f hf heq.symm)
    · exact hplaceless f hf hfp g hg heq

/-- Below the directory of the root, it is the folders and the names. -/
theorem onePageEach_iff_below (h : d.Distinct) (outDir : Path)
    (hbelow : ∀ f ∈ d.inputs, ∃ folders stem, Path.Below d.rootDir f folders stem) :
    (d.assignOutputs outDir).OnePageEach ↔
      ∀ f ∈ d.inputs, ∀ g ∈ d.inputs, ∀ folders stem,
        Path.Below d.rootDir f folders stem → Path.Below d.rootDir g folders stem →
          (f == g) = true := by
  rw [onePageEach_iff h]
  constructor
  · intro hpages f hf g hg folders stem hfb hgb
    refine hpages f hf g hg ?_
    rw [outputFor?_eq_iff h outDir hf hg, hfb.outputName_eq_iff hgb]
    exact ⟨rfl, rfl⟩
  · intro hplaces f hf g hg heq
    obtain ⟨folders, stem, hfb⟩ := hbelow f hf
    obtain ⟨folders', stem', hgb⟩ := hbelow g hg
    rw [outputFor?_eq_iff h outDir hf hg, hfb.outputName_eq_iff hgb] at heq
    obtain ⟨rfl, rfl⟩ := heq
    exact hplaces f hf g hg folders stem hfb hgb

end Document

namespace Scan

/-- **Each document has its own page exactly if no two lie in one place.**  After a scan that
    did not fail, with pages named below any directory, each document has a page of its
    own exactly if no two documents have the same place, and none without a place has the
    page of another.  If all of them lie below the directory of the root, that is to say
    that no two of them are in one folder with names that are the same up to the
    extension.  In any case a page shows the last document that it is the page of. -/
theorem one_page_each_iff (read : Path → Except Fault Text) (root outDir : Path) (book : Bool)
    {d : Document} (hd : (run read root book).document = d)
    (hok : (run read root book).failure = none) :
    ((d.assignOutputs outDir).OnePageEach ↔
      (∀ f ∈ d.inputs, ∀ g ∈ d.inputs, ∀ dir stem,
        Path.Placed d.rootDir outDir f dir stem → Path.Placed d.rootDir outDir g dir stem →
          (f == g) = true) ∧
      ∀ f ∈ d.inputs, (¬ ∃ dir stem, Path.Placed d.rootDir outDir f dir stem) →
        ∀ g ∈ d.inputs, (d.assignOutputs outDir).outputFor? f
          = (d.assignOutputs outDir).outputFor? g → (f == g) = true) ∧
    ((∀ f ∈ d.inputs, ∃ folders stem, Path.Below d.rootDir f folders stem) →
      ((d.assignOutputs outDir).OnePageEach ↔
        ∀ f ∈ d.inputs, ∀ g ∈ d.inputs, ∀ folders stem,
          Path.Below d.rootDir f folders stem → Path.Below d.rootDir g folders stem →
            (f == g) = true)) ∧
    ∀ before f after page, d.inputs = before ++ f :: after →
      (d.assignOutputs outDir).outputFor? f = some page →
      (∀ g ∈ after, (d.assignOutputs outDir).outputFor? g ≠ some page) →
      ∀ (render : Text → Text) (lattice : Lattice) (marker : Text) (s : Store),
        (Step.performAll (Store.fileSystem .none).put
          (Job.weavePlan render (d.assignOutputs outDir) lattice marker) s).2.contents? page
            = some (render ((d.assignOutputs outDir).annotate lattice marker f)) := by
  subst hd
  have hdistinct := (passed_run hok).1
  refine ⟨Document.onePageEach_iff_placed hdistinct outDir,
    Document.onePageEach_iff_below hdistinct outDir, ?_⟩
  intro before f after page hinputs hpage hafter render lattice marker s
  exact Document.page_of_last hdistinct outDir hinputs hpage hafter render lattice marker s

/-- A book whose only chapter has the name of its root, up to the extension. -/
def twins (p : Path) : Except Fault Text :=
  if p.spelling = ['b'] then .ok "[c](b.md)\n".toList
  else if p.spelling = "b.md".toList then .ok "c\n".toList
  else .error .noSuchFile

/-- What a scan of the book finds. -/
def scannedTwins : Document :=
  (run twins ⟨['b']⟩ true).document

/-- Both documents lie below the directory of the root, in one place, so they share a page. -/
theorem twins_share_page :
    (run twins ⟨['b']⟩ true).failure = none ∧
    scannedTwins.inputs.map Path.spelling = [['b'], "b.md".toList] ∧
    ¬ (scannedTwins.assignOutputs ⟨['o']⟩).OnePageEach := by
  have hok : (run twins ⟨['b']⟩ true).failure = none := by decide +kernel
  have hspellings : scannedTwins.inputs.map Path.spelling = [['b'], "b.md".toList] := by
    decide +kernel
  have hinputs : scannedTwins.inputs = [⟨['b']⟩, ⟨"b.md".toList⟩] :=
    List.map_injective_iff.mpr (fun _ _ heq => congrArg Path.mk heq) hspellings
  have hdir : scannedTwins.rootDir = ⟨[]⟩ := by
    have hspelling : scannedTwins.rootDir.spelling = [] := by decide +kernel
    exact congrArg Path.mk hspelling
  have hroot : Path.Below scannedTwins.rootDir ⟨['b']⟩ [] ['b'] := by
    rw [hdir]
    exact @Path.Below.named ⟨[]⟩ ⟨['b']⟩ [] ['b'] ⟨by decide, by decide, by decide⟩
  have hchapter : Path.Below scannedTwins.rootDir ⟨"b.md".toList⟩ [] ['b'] := by
    rw [hdir]
    exact @Path.Below.named ⟨[]⟩ ⟨"b.md".toList⟩ [] "b.md".toList
      ⟨by decide, by decide, by decide⟩
  refine ⟨hok, hspellings, fun heach => ?_⟩
  have hiff := (one_page_each_iff twins ⟨['b']⟩ ⟨['o']⟩ true (rfl : _ = scannedTwins) hok).2.1 ?_
  · have hsame := hiff.mp heach ⟨['b']⟩ ?_ ⟨"b.md".toList⟩ ?_ [] ['b'] hroot hchapter
    · revert hsame
      decide
    · rw [hinputs]
      exact List.mem_cons_self
    · rw [hinputs]
      exact List.mem_cons_of_mem _ List.mem_cons_self
  · intro f hf
    rw [hinputs] at hf
    rcases List.mem_cons.mp hf with rfl | hf
    · exact ⟨_, _, hroot⟩
    · rw [List.mem_singleton.mp hf]
      exact ⟨_, _, hchapter⟩

end Scan

end Literate
