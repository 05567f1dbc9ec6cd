import Literate.Page.Annotation
import Literate.Proofs.Document.Sections
import Literate.Proofs.Page.Output
import Literate.Proofs.Text.Lines

/-! # Cross-references lead to anchors

    Behind a closing fence a page lists sections, as links to their anchors.
    This module follows such a link to its end.

    * The annotated page is put together line by line, so what is noted about a
      line decides what stands at its place (`Document.annotateFrom_append`).
    * A line where a section starts gets the anchor of the section, whether it is
      a heading, prose or a fence (`Document.annotateLine_of_sectionStart`).  The
      text that is annotated has as many lines as the scanner has met, so no
      start that was recorded lies behind the last line (`Scan.Passed.anchored`).
    * Sections on a list are sections of definitions (`Document.mem_addedTo`,
      `Document.mem_usedIn`), and these start in documents that have a page. -/

namespace Literate

/-- The tag that marks the start of a section on its page. -/
def Section.anchorTag (s : Section) : Text :=
  "<a name=\"".toList ++ s.anchor ++ "\"></a>".toList

namespace Document

/-! ## The page, line by line -/

theorem annotate_eq (d : Document) (l : Lattice) (marker : Text) (file : Path) :
    d.annotate l marker file = d.annotateFrom l marker file 1 false (d.textOf file).lines := by
  rw [annotate, textOf]
  cases d.markdown.get? file <;> rfl

theorem sectionStart_notes (d : Document) (file : Path) (n : Nat) :
    (d.notes file n).sectionStart = LineMap.get? n (d.sectionsIn file) := by
  rw [notes, sectionsIn]
  cases d.sectionStarts.get? file <;> rfl

/-- Whether the page has a chunk open behind these lines. -/
def openBehind (d : Document) (file : Path) : Nat → Bool → List Text → Bool
  | _, inChunk, [] => inChunk
  | n, inChunk, _ :: rest => d.openBehind file (n + 1) (inChunkAfter inChunk (d.notes file n)) rest

/-- Lines are annotated behind the lines before them. -/
theorem annotateFrom_append (d : Document) (l : Lattice) (marker : Text) (file : Path) (n : Nat)
    (inChunk : Bool) (before more : List Text) :
    d.annotateFrom l marker file n inChunk (before ++ more)
      = d.annotateFrom l marker file n inChunk before
        ++ d.annotateFrom l marker file (n + before.length) (d.openBehind file n inChunk before)
          more := by
  induction before generalizing n inChunk with
  | nil => rfl
  | cons line before ih =>
      have hlength : n + 1 + before.length = n + (before.length + 1) := by omega
      rw [List.cons_append, annotateFrom, annotateFrom, openBehind, ih, hlength,
        List.append_assoc, List.length_cons]

theorem anchorTag_prefix_anchorLine (s : Section) : s.anchorTag <+: anchorLine s := by
  have hend : "\"></a>\n".toList = "\"></a>".toList ++ ['\n'] := by simp
  unfold anchorLine Section.anchorTag
  rw [hend, ← List.append_assoc]
  exact List.prefix_append _ _

/-- A numbered heading begins with its signs, a blank and the anchor. -/
theorem anchorTag_prefix_numberedHeading? {line heading : Text} {s : Section}
    (h : numberedHeading? line s = some heading) :
    ∃ level, List.replicate level '#' ++ [' '] ++ s.anchorTag <+: heading := by
  obtain ⟨⟨level, title⟩, -, rfl⟩ := Option.map_eq_some_iff.mp h
  have hstart : " <a name=\"".toList = [' '] ++ "<a name=\"".toList := by simp
  refine ⟨level, s.label ++ ' ' :: title, ?_⟩
  unfold Section.anchorTag
  rw [hstart]
  simp only [List.append_assoc]

/-- The start of a section puts its anchor on a line of its own, or into a heading, which is
    the line then. -/
theorem withAnchor_cases (inChunk : Bool) {notes : LineNotes} (text : Text) {s : Section}
    (h : notes.sectionStart = some s) :
    withAnchor inChunk notes text = (anchorLine s, text) ∨
      notes.chunkStart = none ∧
        ∃ heading, numberedHeading? text s = some heading ∧
          withAnchor inChunk notes text = ([], heading) := by
  simp only [withAnchor, h]
  cases hheading : numberedHeading? text s with
  | none => exact Or.inl rfl
  | some heading =>
      cases hcond : !inChunk && notes.chunkStart.isNone with
      | false => exact Or.inl rfl
      | true =>
          have hnone := (Bool.and_eq_true_iff.mp hcond).2
          exact Or.inr ⟨Option.isNone_iff_eq_none.mp hnone, heading, rfl, rfl⟩

/-- A line where a section starts has the anchor of the section at its front, behind the
    signs of a heading at most. -/
theorem annotateLine_of_sectionStart (d : Document) (l : Lattice) (marker : Text) (file : Path)
    (inChunk : Bool) {notes : LineNotes} (line : Text) {s : Section}
    (h : notes.sectionStart = some s) :
    ∃ signs : Text, (signs = [] ∨ ∃ level, signs = List.replicate level '#' ++ [' ']) ∧
      signs ++ s.anchorTag <+: d.annotateLine l marker file inChunk notes line := by
  generalize htext : d.linkedLine file inChunk notes line = text
  rcases withAnchor_cases inChunk text h with hown | ⟨hstart, heading, hheading, hinto⟩
  · refine ⟨[], Or.inl rfl, ?_⟩
    simp only [annotateLine, htext, hown, List.append_assoc, List.nil_append]
    exact (anchorTag_prefix_anchorLine s).trans (List.prefix_append _ _)
  · obtain ⟨level, hlevel⟩ := anchorTag_prefix_numberedHeading? hheading
    refine ⟨_, Or.inr ⟨level, rfl⟩, ?_⟩
    simp only [annotateLine, htext, hinto, hstart, List.nil_append]
    exact hlevel.trans (List.prefix_append _ _)

/-- The page of a section's document has the anchor that marks the start of the section,
    behind the annotated lines before it and the signs of a heading at most. -/
def Anchored (d : Document) (l : Lattice) (marker : Text) (s : Section) : Prop :=
  ∃ (n : Nat) (signs : Text),
    LineMap.get? (n + 1) (d.sectionsIn s.file) = some s ∧
    (signs = [] ∨ ∃ level, signs = List.replicate level '#' ++ [' ']) ∧
    d.annotateFrom l marker s.file 1 false ((d.textOf s.file).lines.take n)
      ++ (signs ++ s.anchorTag) <+: d.annotate l marker s.file

/-- A start on record within the text of a document makes an anchor on its page. -/
theorem anchored_of_sectionsIn (d : Document) (l : Lattice) (marker : Text) {s : Section}
    {n : Nat} (hn : n < (d.textOf s.file).lines.length)
    (h : LineMap.get? (n + 1) (d.sectionsIn s.file) = some s) : d.Anchored l marker s := by
  generalize hlines : (d.textOf s.file).lines = lines at hn
  have hnotes : (d.notes s.file (1 + n)).sectionStart = some s := by
    rw [sectionStart_notes, Nat.add_comm, h]
  have hsplit : lines.take n ++ lines[n] :: lines.drop (n + 1) = lines := by
    rw [List.getElem_cons_drop, List.take_append_drop]
  have hlength : (lines.take n).length = n := by
    rw [List.length_take]
    omega
  obtain ⟨signs, hsigns, hline⟩ := d.annotateLine_of_sectionStart l marker s.file
    (d.openBehind s.file 1 false (lines.take n)) lines[n] hnotes
  refine ⟨n, signs, h, hsigns, ?_⟩
  have hpage := d.annotateFrom_append l marker s.file 1 false (lines.take n)
    (lines[n] :: lines.drop (n + 1))
  rw [hsplit, annotateFrom, hlength] at hpage
  rw [annotate_eq, hlines, hpage]
  exact (List.prefix_append_right_inj _).mpr (hline.trans (List.prefix_append _ _))

/-! ## Sections on the lists -/

/-- Between documents with pages, a section is a link to its anchor. -/
theorem sectionLink_eq {d : Document} {current source target : Path} {s : Section}
    (hsource : d.outputFor? current = some source) (htarget : d.outputFor? s.file = some target) :
    d.sectionLink current s
      = '[' :: s.label ++ "](".toList ++ pageLink source target ++ '#' :: s.anchor ++ [')'] := by
  rw [sectionLink, hsource, htarget]

end Document

namespace Scan

variable {read : Path → Except Fault Text} {scan : Scan} {ps : List Pass}

/-- The text kept of a document has as many lines as were met. -/
theorem Passed.length_lines_textOf (h : scan.Passed read ps) {p : Pass} (hp : p ∈ ps) :
    (scan.document.textOf p.file).lines.length = p.lines.length := by
  obtain ⟨-, -, -, htext⟩ := Shown.mk.inj (h.shown p hp)
  obtain ⟨content, -, hlines⟩ := (h.of p hp).read_eq
  have hcut : ∀ line ∈ p.lines, '\n' ∉ line := by
    rw [← hlines]
    exact fun line => Text.newline_notMem_of_mem_lines
  rw [htext, Text.lines_unlines hcut, List.length_map]

/-- The section of a definition has its anchor on the page of its document, which is one of
    the run, whatever pages are named. -/
theorem Passed.anchored (h : scan.Passed read ps) {x : ChunkName} {definition : Definition}
    (hdefinition : definition ∈ scan.document.chunks.definitionsOf x) (outDir : Path)
    (l : Lattice) (marker : Text) :
    definition.within.file ∈ ps.map Pass.file ∧
      (scan.document.assignOutputs outDir).Anchored l marker definition.within := by
  obtain ⟨p, hp, hfile, n, hn, hget⟩ := h.within_start hdefinition
  constructor
  · exact List.mem_map.mpr ⟨p, hp, hfile.symm⟩
  · rw [← h.length_lines_textOf hp, ← hfile] at hn
    rw [← hfile] at hget
    exact Document.anchored_of_sectionsIn _ l marker hn hget

/-- The pamphlet with its pages. -/
def boundPamphlet : Document :=
  (run pamphlet ⟨['b']⟩ true).document.assignOutputs ⟨['o']⟩

end Scan

end Literate
