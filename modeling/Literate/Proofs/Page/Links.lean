import Literate.Proofs.Page.Anchor
import Literate.Proofs.Path.Relative

/-! # Links between pages

    Cross-references and links to chapters lead from page to page by one relative
    path, `Document.pageLink`.  Pages have normal names
    (`Path.normalize_outputName`), so the general statement about relative paths
    says which of these links lead to the page they name
    (`Scan.page_link_resolves_iff`): all of them as long as no page lies further
    up than another, and so in every book whose chapters stay below the directory
    of its root.

    A chapter above that directory can have a page above the output directory.
    The way back from there is not known: its links do not resolve
    (`Scan.page_links_miss`), and no path in their place would. -/

namespace Literate

/-- A link to a document with a page is changed into the link to the page. -/
theorem Document.newPath?_eq {d : Document} {file source target : Path} {link : Link}
    (hinner : link.isExternal = false)
    (htarget : d.outputFor? (Path.resolveLink file link.path) = some target) :
    d.newPath? file source link = some (Document.pageLink source target) := by
  rw [newPath?, hinner, htarget]
  rfl

namespace Scan

/-- **Links between pages resolve where a relative path can lead.**  After a scan that did not
    fail, with pages named below any directory, two documents have pages, and the page
    of the one leads to the other by one path, in cross-references and in links.  Read
    from the directory of the page, this path is the other page exactly if that is
    absolute, or if the directory is not, and starts no further up than the other page.
    Else no path leads there. -/
theorem page_link_resolves_iff (read : Path → Except Fault Text) (root outDir : Path)
    (book : Bool) {d : Document}
    (hd : (run read root book).document.assignOutputs outDir = d)
    (hok : (run read root book).failure = none) {f g : Path} (hf : f ∈ d.inputs)
    (hg : g ∈ d.inputs) :
    ∃ source target, d.outputFor? f = some source ∧ d.outputFor? g = some target ∧
      (∀ s : Section, s.file = g →
        d.sectionLink f s = '[' :: s.label ++ "](".toList ++ Document.pageLink source target
          ++ '#' :: s.anchor ++ [')']) ∧
      (∀ link : Link, link.isExternal = false → Path.resolveLink f link.path = g →
        d.newPath? f source link = some (Document.pageLink source target)) ∧
      ((source.parent.join ⟨Document.pageLink source target⟩).normalize = target ↔
        target.isAbsolute = true ∨ source.parent.isAbsolute = false ∧
          source.parent.normalize.components.count .up ≤ target.components.count .up) ∧
      ∀ way : Path, (source.parent.join way).normalize = target →
        (source.parent.join ⟨Document.pageLink source target⟩).normalize = target := by
  subst hd
  obtain ⟨hdistinct, -⟩ := passed_run hok
  have hsource := Document.outputFor?_assignOutputs hdistinct outDir hf
  have htarget := Document.outputFor?_assignOutputs hdistinct outDir hg
  have hnormal := Path.normalize_outputName g (run read root book).document.rootDir outDir
  refine ⟨_, _, hsource, htarget, ?_, ?_, ?_, ?_⟩
  · rintro s rfl
    exact Document.sectionLink_eq hsource htarget
  · rintro link hinner rfl
    exact Document.newPath?_eq hinner htarget
  · have hlink := Path.normalize_join_toLink_iff
      (Path.outputName f (run read root book).document.rootDir outDir).parent
      (Path.outputName g (run read root book).document.rootDir outDir)
    rw [hnormal] at hlink
    exact hlink
  · intro way hway
    have hlink := Path.normalize_join_toLink_of_way (hway.trans hnormal.symm)
    rw [hnormal] at hlink
    exact hlink

/-- In the pamphlet, with its pages in one directory, the link from the chapter back to the
    root resolves. -/
theorem pamphlet_links :
    (run pamphlet ⟨['b']⟩ true).failure = none ∧
    ⟨['c', '.', 'm', 'd']⟩ ∈ boundPamphlet.inputs ∧ ⟨['b']⟩ ∈ boundPamphlet.inputs ∧
    ∃ source target, boundPamphlet.outputFor? ⟨['c', '.', 'm', 'd']⟩ = some source ∧
      boundPamphlet.outputFor? ⟨['b']⟩ = some target ∧
      (source.parent.join ⟨Document.pageLink source target⟩).normalize = target := by
  have hok : (run pamphlet ⟨['b']⟩ true).failure = none := by decide +kernel
  have hchapter : ['c', '.', 'm', 'd'] ∈ boundPamphlet.inputs.map Path.spelling := by
    decide +kernel
  have hroot : ['b'] ∈ boundPamphlet.inputs.map Path.spelling := by decide +kernel
  have hpage : (boundPamphlet.outputFor? ⟨['c', '.', 'm', 'd']⟩).map Path.spelling
      = some "o/c.html".toList := by decide +kernel
  have hpage' : (boundPamphlet.outputFor? ⟨['b']⟩).map Path.spelling
      = some "o/b.html".toList := by decide +kernel
  obtain ⟨⟨_⟩, hf, rfl⟩ := List.mem_map.mp hchapter
  obtain ⟨⟨_⟩, hg, rfl⟩ := List.mem_map.mp hroot
  obtain ⟨⟨_⟩, hpage, rfl⟩ := Option.map_eq_some_iff.mp hpage
  obtain ⟨⟨_⟩, hpage', rfl⟩ := Option.map_eq_some_iff.mp hpage'
  obtain ⟨source, target, hsource, htarget, -, -, hiff, -⟩ :=
    page_link_resolves_iff pamphlet ⟨['b']⟩ ⟨['o']⟩ true rfl hok hf hg
  refine ⟨hok, hf, hg, source, target, hsource, htarget, hiff.mpr (Or.inr ?_)⟩
  rw [Option.some.inj (hsource.symm.trans hpage), Option.some.inj (htarget.symm.trans hpage')]
  decide +kernel

/-- A book with a chapter two directories above its root. -/
def highBook (p : Path) : Except Fault Text :=
  if p.spelling = ['b'] then .ok "[c](../../c.md)\n".toList
  else if p.spelling = "../../c.md".toList then .ok "c\n".toList
  else .error .noSuchFile

/-- The book with its pages below a directory. -/
def boundHighBook : Document :=
  (run highBook ⟨['b']⟩ true).document.assignOutputs ⟨['o']⟩

/-- The page of that chapter lies above the output directory, and its link to the page of the
    root leads past it. -/
theorem page_links_miss :
    ¬ ∀ (read : Path → Except Fault Text) (root outDir : Path) (book : Bool) (d : Document),
      (run read root book).document.assignOutputs outDir = d →
      (run read root book).failure = none →
      ∀ f ∈ d.inputs, ∀ g ∈ d.inputs, ∀ source target,
        d.outputFor? f = some source → d.outputFor? g = some target →
        (source.parent.join ⟨Document.pageLink source target⟩).normalize = target := by
  intro hall
  have hok : (run highBook ⟨['b']⟩ true).failure = none := by decide +kernel
  have hchapter : "../../c.md".toList ∈ boundHighBook.inputs.map Path.spelling := by
    decide +kernel
  have hroot : ['b'] ∈ boundHighBook.inputs.map Path.spelling := by decide +kernel
  have hpage : (boundHighBook.outputFor? ⟨"../../c.md".toList⟩).map Path.spelling
      = some "../c.html".toList := by decide +kernel
  have hpage' : (boundHighBook.outputFor? ⟨['b']⟩).map Path.spelling
      = some "o/b.html".toList := by decide +kernel
  obtain ⟨⟨_⟩, hf, rfl⟩ := List.mem_map.mp hchapter
  obtain ⟨⟨_⟩, hg, rfl⟩ := List.mem_map.mp hroot
  obtain ⟨⟨_⟩, hpage, rfl⟩ := Option.map_eq_some_iff.mp hpage
  obtain ⟨⟨_⟩, hpage', rfl⟩ := Option.map_eq_some_iff.mp hpage'
  have hresolved := congrArg Path.spelling
    (hall highBook ⟨['b']⟩ ⟨['o']⟩ true boundHighBook rfl hok _ hf _ hg _ _ hpage hpage')
  revert hresolved
  decide +kernel

end Scan

end Literate
