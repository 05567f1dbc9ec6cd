import Literate.Proofs.Document.Discovery
import Literate.Proofs.Link.Segments
import Literate.Proofs.Page.Output
import Literate.Proofs.Path.Parent
import Literate.Settings.Basic

/-! # Pages beside their documents

    Without an output directory, pages go below the directory of the root document.
    That directory is taken from the root as it was given, the places of the documents
    from normal paths.  Both settle to the same (`Path.settled_parent_normalize`), so
    the way down to a document, gone from where the pages go, leads to the document
    itself.

    * Replacing the extension of a name at the end of a path replaces one step by
      another, `Path.pageStep`: a name, or `..` where the name is something like `..md`
      (`Path.withExtension_join_eq`).
    * Every document is reached from the directory of the root by some path, since
      the links of the root are resolved there, and then it is reached by the relative
      path as well (`Path.normalize_join_relativeTo_of_way`).
    * So the page is the document with its extension replaced, and then normalized
      (`Path.outputName_eq_of_way`).  Where the extension leaves `..` behind, that
      takes a folder away. -/

namespace Literate

namespace Path

open Component

/-- What becomes of a name when its extension is replaced by that of a page. -/
def pageStep (n : Text) : Component :=
  if stem n = ['.'] then .up else .name (stem n ++ ".html".toList)

theorem isStep_pageStep {n : Text} (hn : IsName n) : (pageStep n).IsStep := by
  rw [pageStep]
  split
  · exact isStep_up
  · exact isName_stem hn (List.cons_ne_nil _ _) (by decide)

theorem withExtension_join_eq (p : Path) {n : Text} (hn : IsName n) :
    (p.join ⟨n⟩).withExtension "html".toList = p.join ⟨(pageStep n).text⟩ := by
  rw [pageStep]
  split
  · next hstem => exact withExtension_join_of_stem p hn hstem _
  · next hstem => exact withExtension_join p hn hstem

theorem settled_join_step (p : Path) {c : Component} (hc : c.IsStep) :
    (p.join ⟨c.text⟩).settled = settle p.settled c := by
  rw [settled_join (isAbsolute_of_isStep hc), steps_text hc]
  rfl

variable {f : Path} {folder : List Component} {n : Text}

/-- A normal path that ends in a name is its folder and the name. -/
theorem eq_join_of_normal (hnormal : f.normalize = f) (h : f.components = folder ++ [.name n]) :
    f = (ofComponents folder).join ⟨n⟩ := by
  have hcomponents := components_normalize f
  rw [hnormal, h] at hcomponents
  rw [← hnormal, normalize_eq, ← hcomponents, ofComponents_concat]
  rfl

/-- **Pages go beside their documents.**  The page of a document that some path leads to from
    the root's directory, named below a directory that settles to the same, is the
    document with its extension replaced, in normal form. -/
theorem outputName_eq_of_way {rootDir outDir way : Path} (hdir : outDir.settled = rootDir.settled)
    (hnormal : f.normalize = f) (h : f.components = folder ++ [.name n])
    (hgiven : ¬ (f.spelling.isEmpty || f == standardInput) = true)
    (hbeside : ¬ f.components <+: rootDir.normalize.components)
    (hway : (rootDir.join way).normalize = f) :
    outputName f rootDir outDir = (f.withExtension "html".toList).normalize := by
  have hends : f.normalize.components = folder ++ [.name n] := by rw [hnormal, h]
  have hn : IsName n := isName_of_components hends
  have hfolder := settled_folder_of_components hends
  -- one more step up leads to the folder, so the relative path leads there
  have hsettled : (rootDir.join way).settled = .name n :: folder.reverse := by
    rw [← settled_normalize, hway, settled_of_components hends]
  have hup : (rootDir.join (way.join ⟨(Component.up).text⟩)).normalize
      = (ofComponents folder).normalize := by
    rw [normalize_eq_iff, join_join _ _ (isAbsolute_of_isStep isStep_up),
      settled_join_step _ isStep_up, hsettled, hfolder]
    rfl
  have hrelative := normalize_eq_iff.mp (normalize_join_relativeTo_of_way hup)
  have hplace : (outDir.join (relativeTo rootDir (ofComponents folder))).settled
      = (ofComponents folder).settled := (settled_join_congr hdir _).trans hrelative
  rw [← hnormal] at hbeside
  have hdocument : f.withExtension "html".toList
      = (ofComponents folder).join ⟨(pageStep n).text⟩ := by
    rw [← withExtension_join_eq _ hn, ← eq_join_of_normal hnormal h]
  rw [outputName, if_neg hgiven, relativeTo_eq_join hends hbeside,
    join_join outDir _ (isAbsolute_of_isName hn), withExtension_join_eq _ hn, hdocument,
    normalize_eq_iff, settled_join_step _ (isStep_pageStep hn),
    settled_join_step _ (isStep_pageStep hn), hplace]

/-- A step up from settled components stands on top of them only if all of them go up. -/
theorem Settled.settle_up_eq_iff {absolute : Bool} {done : List Component}
    (h : Settled absolute done) : settle done .up = .up :: done ↔ ∀ c ∈ done, c = .up := by
  have hname (t : Text) (rest : List Component) :
      settle (.name t :: rest) .up = .up :: .name t :: rest ↔ ∀ c ∈ .name t :: rest, c = .up := by
    refine iff_of_false (fun heq => ?_) fun hall => nomatch hall (.name t) List.mem_cons_self
    have hlen : rest.length = rest.length + 2 := congrArg List.length heq
    omega
  cases h with
  | relative names h k =>
      cases names with
      | nil =>
          refine iff_of_true ?_ fun c hc => (List.mem_replicate.mp hc).2
          cases k <;> rfl
      | cons t names => exact hname t _
  | absolute names h =>
      cases names with
      | nil =>
          exact iff_of_false (fun heq => nomatch heq) fun hall => nomatch hall .root List.mem_cons_self
      | cons t names => exact hname t _

theorem components_withExtension (hnormal : f.normalize = f)
    (h : f.components = folder ++ [.name n]) :
    (f.withExtension "html".toList).components = folder ++ [pageStep n] := by
  have hends : f.normalize.components = folder ++ [.name n] := by rw [hnormal, h]
  have hn : IsName n := isName_of_components hends
  have hsettled := f.settled_settled
  rw [settled_of_components hends] at hsettled
  have hfolder : (ofComponents folder).components = folder := by
    have hfolder := hsettled.tail.2.components
    rwa [List.reverse_reverse] at hfolder
  rw [eq_join_of_normal hnormal h, withExtension_join_eq _ hn,
    components_join_step _ (isStep_pageStep hn), hfolder]

/-- Normalizing leaves the new path alone, unless the extension left `..` behind in a folder
    that has a name or is the root. -/
theorem normalize_withExtension_beq_iff (hnormal : f.normalize = f)
    (h : f.components = folder ++ [.name n]) :
    ((f.withExtension "html".toList).normalize == f.withExtension "html".toList) = true ↔
      (stem n = ['.'] → ∀ c ∈ folder, c = .up) := by
  have hends : f.normalize.components = folder ++ [.name n] := by rw [hnormal, h]
  have hsettled := f.settled_settled
  rw [settled_of_components hends] at hsettled
  have hpage := components_withExtension hnormal h
  have hfold : folder.foldl settle [] = folder.reverse := by
    have hfold := hsettled.tail.2.foldl_reverse
    rwa [List.reverse_reverse] at hfold
  rw [beq_iff, components_normalize, settled, hpage, List.foldl_append, hfold,
    List.reverse_eq_iff, List.reverse_append, pageStep]
  split
  · next hstem =>
      simp only [hstem, forall_const]
      refine hsettled.tail.2.settle_up_eq_iff.trans ?_
      simp only [List.mem_reverse]
  · next hstem => exact iff_of_true rfl fun heq => absurd heq hstem

/-! ## Paths that end in a name -/

/-- A text that ends in an extension ends in a name, behind its last slash. -/
theorem exists_steps_eq {extension : Text} (hlong : 2 < extension.length)
    (hslash : '/' ∉ extension) (t : Text) :
    ∃ before n, steps (t ++ extension) = before ++ [.name n] := by
  induction hlen : t.length using Nat.strongRecOn generalizing t with
  | ind len ih =>
      by_cases hmem : '/' ∈ t
      · obtain ⟨first, rest, rfl⟩ := List.append_of_mem hmem
        have hshort : rest.length < len := by
          rw [← hlen, List.length_append, List.length_cons]
          omega
        obtain ⟨before, n, hsteps⟩ := ih rest.length hshort rest rfl
        refine ⟨steps first ++ before, n, ?_⟩
        rw [List.append_assoc, List.cons_append, steps_append, hsteps, List.append_assoc]
      · have hname : IsName (t ++ extension) := by
          refine isName_of_length ?_ ?_
          · rw [List.mem_append, not_or]
            exact ⟨hmem, hslash⟩
          · rw [List.length_append]
            omega
        exact ⟨[], t ++ extension, steps_of_isName hname⟩

/-- What leads to a name from anywhere ends in it. -/
theorem exists_components_join {t : Text} {before : List Component}
    (h : steps t = before ++ [.name n]) (dir : Path) :
    ∃ folder, (dir.join ⟨t⟩).normalize.components = folder ++ [.name n] := by
  have hsettled : ∃ done, (dir.join ⟨t⟩).settled = .name n :: done := by
    cases hq : (⟨t⟩ : Path).isAbsolute with
    | true =>
        rw [join, if_pos hq, settled_eq, h, List.foldl_append]
        exact ⟨_, rfl⟩
    | false =>
        rw [settled_join hq, h, List.foldl_append]
        exact ⟨_, rfl⟩
  obtain ⟨done, hdone⟩ := hsettled
  refine ⟨done.reverse, ?_⟩
  rw [components_normalize, hdone, List.reverse_cons]

end Path

namespace Scan

variable {read : Path → Except Fault Text} {root : Path} {book : Bool}

theorem rootDir_run : (run read root book).document.rootDir = root.normalize.parent := by
  rw [Document.rootDir, Document.root?, inputs_eq_found]
  rfl

/-- Every document of a run is reached from the directory of the root, and has a name. -/
theorem exists_way_of_mem_found {folder : List Component} {n : Text}
    (hroot : root.components = folder ++ [.name n]) {f : Path} (hf : f ∈ found read root book) :
    ∃ folder n way, f.components = folder ++ [.name n] ∧
      (root.normalize.parent.join way).normalize = f := by
  rcases mem_found_cases hf with rfl | ⟨line, l, hl, rfl⟩
  · have hends : root.normalize.components = root.parent.settled.reverse ++ [.name n] := by
      rw [Path.components_normalize, Path.settled_eq_cons hroot, List.reverse_cons]
    have hn : Component.IsName n := Path.isName_of_components hends
    refine ⟨_, n, ⟨n⟩, hends, ?_⟩
    have hstep : (root.normalize.parent.join ⟨n⟩).settled
        = Path.settle root.normalize.parent.settled (.name n) :=
      Path.settled_join_step (c := .name n) _ hn
    rw [Path.normalize_eq_iff, Path.settled_eq_cons hroot, ← Path.settled_parent_normalize hroot,
      hstep]
    rfl
  · obtain ⟨t, ht⟩ := Link.extension_suffix_path hl
    have hlong : 2 < Link.extension.length := by decide
    obtain ⟨before, m, hsteps⟩ := Path.exists_steps_eq hlong (by decide) t
    rw [ht] at hsteps
    obtain ⟨folder', hfolder⟩ := Path.exists_components_join hsteps root.normalize.parent
    exact ⟨folder', m, ⟨l.path⟩, hfolder, rfl⟩

/-- **Pages beside their documents.**  Without an output directory, after a scan that did not
    fail, from a root that ends in a name: every document on the list ends in a name
    too, and its page is the document with the extension replaced, in normal form.
    Normalizing leaves the page in the folder of its document unless the document is
    called something like `..md`; then the page is the document with the extension
    replaced exactly if its folder is given by `..` alone. -/
theorem pages_go_beside (read : Path → Except Fault Text) (root : Path) (book : Bool)
    (settings : Settings) {rootFolder : List Component} {rootName : Text}
    (hroot : root.components = rootFolder ++ [.name rootName]) (hdir : settings.outDir = none)
    {d : Document} (hd : (run read root book).document = d)
    (hok : (run read root book).failure = none) :
    ∀ f ∈ d.inputs, ¬ (f.spelling.isEmpty || f == Path.standardInput) = true →
      ¬ f.components <+: d.rootDir.components →
      ∃ folder n, f.components = folder ++ [.name n] ∧
        (d.assignOutputs (settings.outDirFor root)).outputFor? f
          = some (f.withExtension "html".toList).normalize ∧
        (Path.stem n ≠ ['.'] → (f.withExtension "html".toList).components
          = folder ++ [.name (Path.stem n ++ ".html".toList)]) ∧
        (((f.withExtension "html".toList).normalize == f.withExtension "html".toList) = true ↔
          (Path.stem n = ['.'] → ∀ c ∈ folder, c = .up)) := by
  subst hd
  intro f hf hgiven hbeside
  have hdistinct := (passed_run hok).1
  have hfound := hf
  rw [inputs_eq_found] at hfound
  have hnormal : f.normalize = f := normalize_of_mem_found hfound
  obtain ⟨folder, n, way, hends, hway⟩ := exists_way_of_mem_found hroot hfound
  refine ⟨folder, n, hends, ?_, fun hstem => ?_, Path.normalize_withExtension_beq_iff hnormal hends⟩
  · have hout : settings.outDirFor root = root.parent := by
      rw [Settings.outDirFor, hdir]
    have hsettled : root.parent.settled = root.normalize.parent.settled :=
      (Path.settled_parent_normalize hroot).symm
    rw [rootDir_run, Path.components_parent_normalize hroot, hsettled,
      ← Path.components_normalize] at hbeside
    rw [Document.outputFor?_assignOutputs hdistinct _ hf, hout, rootDir_run,
      Path.outputName_eq_of_way hsettled hnormal hends hgiven hbeside hway]
  · rw [Path.components_withExtension hnormal hends, Path.pageStep, if_neg hstem]

/-- A book whose chapters lie above the root's directory, at the root of the file system, and
    beside the book under a name that is mostly dots. -/
def scattered (p : Path) : Except Fault Text :=
  if p.spelling = "d/b".toList then .ok "[c](../../c.md) [e](/e.md) [x](..md)\n".toList
  else if p.spelling = "../c.md".toList || p.spelling = "/e.md".toList
    || p.spelling = "d/..md".toList then .ok "text\n".toList
  else .error .noSuchFile

/-- The root of the book, as it may be given. -/
def scatteredRoot : Path := ⟨"./d/x/..//b/".toList⟩

/-- What a scan of the book finds. -/
def boundScattered : Document :=
  (run scattered scatteredRoot true).document

/-- All pages go beside their documents, except that of `d/..md`, which is no file. -/
theorem scattered_pages_go_beside :
    (run scattered scatteredRoot true).failure = none ∧
    boundScattered.inputs.map Path.spelling
      = ["d/b".toList, "../c.md".toList, "/e.md".toList, "d/..md".toList] ∧
    (∀ f ∈ boundScattered.inputs,
      (boundScattered.assignOutputs (Settings.default.outDirFor scatteredRoot)).outputFor? f
        = some (f.withExtension "html".toList).normalize) ∧
    boundScattered.inputs.map (fun f => (f.withExtension "html".toList).normalize.spelling)
      = ["d/b.html".toList, "../c.html".toList, "/e.html".toList, []] := by
  have hok : (run scattered scatteredRoot true).failure = none := by decide +kernel
  have hspellings : boundScattered.inputs.map Path.spelling
      = ["d/b".toList, "../c.md".toList, "/e.md".toList, "d/..md".toList] := by decide +kernel
  have hinputs : boundScattered.inputs
      = [⟨"d/b".toList⟩, ⟨"../c.md".toList⟩, ⟨"/e.md".toList⟩, ⟨"d/..md".toList⟩] :=
    List.map_injective_iff.mpr (fun _ _ heq => congrArg Path.mk heq) hspellings
  have hroot : scatteredRoot.components
      = [.here, .name ['d'], .name ['x'], .up] ++ [.name ['b']] := by decide +kernel
  have hsides : ∀ f ∈ boundScattered.inputs,
      ¬ (f.spelling.isEmpty || f == Path.standardInput) = true ∧
        ¬ f.components <+: boundScattered.rootDir.components := by
    rw [hinputs, boundScattered, rootDir_run]
    decide +kernel
  refine ⟨hok, hspellings, fun f hf => ?_, ?_⟩
  · obtain ⟨folder, n, -, hpage, -⟩ :=
      pages_go_beside scattered scatteredRoot true Settings.default hroot rfl
        (rfl : _ = boundScattered) hok f hf (hsides f hf).1 (hsides f hf).2
    exact hpage
  · rw [hinputs]
    decide +kernel

end Scan

end Literate
