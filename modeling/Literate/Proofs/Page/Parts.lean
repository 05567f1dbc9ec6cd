import Literate.Proofs.Page.Replay
import Literate.Proofs.Section.Moves

/-! # No anchor stands twice

    The anchors on a page are those that annotation puts there, whatever else the
    text of the page has in it.  To speak of them, the page is taken apart: each
    line gives its anchor, if it has one, and the text around it
    (`Document.flatMap_lineParts`).

    A line has the anchor of the section that starts there, and in one document
    no two sections on record have the same numbers.  Numbers that are at least
    one can be read off a label again, so that no two anchors are the same
    (`Document.pairwise_pageParts`). -/

namespace Literate

/-- A part of a page: an anchor that was put there, or any other text. -/
inductive PagePart where
  | anchor (s : Section)
  | text (t : Text)

namespace PagePart

/-- What the page has there. -/
def written : PagePart → Text
  | anchor s => s.anchorTag
  | text t => t

/-- The section of an anchor. -/
def section? : PagePart → Option Section
  | anchor s => some s
  | text _ => none

end PagePart

namespace Document

/-! ## The parts of a page -/

/-- The cross-references behind a line. -/
def references (d : Document) (l : Lattice) (file : Path) (notes : LineNotes) : Text :=
  match notes.chunkEnd with
  | some e => d.addedToText file e ++ d.usedInText l file e
  | none => []

/-- The parts of an annotated line.  An anchor that is not put into a heading stands on a line
    of its own, before the line annotated as if no section started there. -/
def lineParts (d : Document) (l : Lattice) (marker : Text) (file : Path) (inChunk : Bool)
    (notes : LineNotes) (line : Text) : List PagePart :=
  match notes.sectionStart with
  | none => [.text (d.annotateLine l marker file inChunk notes line)]
  | some s =>
    match if !inChunk && notes.chunkStart.isNone then
        Line.heading? (d.linkedLine file inChunk notes line) else none with
    | some (level, title) =>
      [.text (List.replicate level '#' ++ [' ']), .anchor s,
        .text (s.label ++ ' ' :: title ++ '\n' :: d.references l file notes)]
    | none =>
      [.anchor s,
        .text ('\n' :: d.annotateLine l marker file inChunk { notes with sectionStart := none } line)]

/-- The parts that the page has for line `n + 1` of a document. -/
def partsAt (d : Document) (l : Lattice) (marker : Text) (file : Path) (n : Nat) :
    List PagePart :=
  match (d.textOf file).lines[n]? with
  | none => []
  | some line =>
    d.lineParts l marker file (d.openBehind file 1 false ((d.textOf file).lines.take n))
      (d.notes file (n + 1)) line

/-- The parts of the page of a document. -/
def pageParts (d : Document) (l : Lattice) (marker : Text) (file : Path) : List PagePart :=
  (List.range (d.textOf file).lines.length).flatMap (d.partsAt l marker file)

theorem anchorLine_eq (s : Section) : anchorLine s = s.anchorTag ++ ['\n'] := by
  have hend : "\"></a>\n".toList = "\"></a>".toList ++ ['\n'] := by simp
  unfold anchorLine Section.anchorTag
  rw [hend, List.append_assoc, List.append_assoc, List.append_assoc]

section Line

variable {d : Document} {l : Lattice} {marker : Text} {file : Path} {inChunk : Bool}
  {chunkStart : Option ChunkName} {chunkEnd : Option ChunkEnd} {s : Section} {line : Text}

/-- An anchor on a line of its own leaves the line behind it as it is without. -/
theorem annotateLine_alone
    (h : withAnchor inChunk ⟨chunkStart, some s, chunkEnd⟩
        (d.linkedLine file inChunk ⟨chunkStart, some s, chunkEnd⟩ line)
      = (anchorLine s, d.linkedLine file inChunk ⟨chunkStart, some s, chunkEnd⟩ line)) :
    d.annotateLine l marker file inChunk ⟨chunkStart, some s, chunkEnd⟩ line
      = s.anchorTag ++ '\n' ::
        d.annotateLine l marker file inChunk ⟨chunkStart, none, chunkEnd⟩ line := by
  rw [annotateLine, h]
  simp only [annotateLine, withAnchor, anchorLine_eq, linkedLine, List.append_assoc,
    List.nil_append, List.singleton_append]
  rfl

/-- In a heading the anchor stands behind the signs. -/
theorem annotateLine_numbered {level : Nat} {title : Text} (hout : inChunk = false)
    (h : Line.heading? (d.linkedLine file inChunk ⟨none, some s, chunkEnd⟩ line)
      = some (level, title)) :
    d.annotateLine l marker file inChunk ⟨none, some s, chunkEnd⟩ line
      = List.replicate level '#' ++ [' '] ++ (s.anchorTag ++ (s.label ++ ' ' :: title ++ '\n' ::
        d.references l file ⟨none, some s, chunkEnd⟩)) := by
  subst hout
  have htag : " <a name=\"".toList = [' '] ++ "<a name=\"".toList := by simp
  have hnumbered : withAnchor false ⟨none, some s, chunkEnd⟩
        (d.linkedLine file false ⟨none, some s, chunkEnd⟩ line)
      = ([], List.replicate level '#' ++ [' '] ++ s.anchorTag ++ s.label ++ ' ' :: title) := by
    simp only [withAnchor, numberedHeading?, h, Option.map_some]
    unfold Section.anchorTag
    rw [htag]
    simp only [List.append_assoc]
    rfl
  have hshape : d.annotateLine l marker file false ⟨none, some s, chunkEnd⟩ line
      = (withAnchor false ⟨none, some s, chunkEnd⟩
          (d.linkedLine file false ⟨none, some s, chunkEnd⟩ line)).1
        ++ (withAnchor false ⟨none, some s, chunkEnd⟩
          (d.linkedLine file false ⟨none, some s, chunkEnd⟩ line)).2
        ++ '\n' :: d.references l file ⟨none, some s, chunkEnd⟩ := rfl
  rw [hshape, hnumbered]
  simp only [List.append_assoc, List.nil_append, List.cons_append]

end Line

/-- Put together, the parts of a line are the line. -/
theorem flatMap_lineParts (d : Document) (l : Lattice) (marker : Text) (file : Path)
    (inChunk : Bool) (notes : LineNotes) (line : Text) :
    (d.lineParts l marker file inChunk notes line).flatMap PagePart.written
      = d.annotateLine l marker file inChunk notes line := by
  obtain ⟨chunkStart, sectionStart, chunkEnd⟩ := notes
  cases sectionStart with
  | none => simp [lineParts, PagePart.written]
  | some s =>
      simp only [lineParts]
      split
      · next level title hheading =>
          obtain ⟨hcond, hheading⟩ := Option.ite_none_right_eq_some.mp hheading
          obtain ⟨hout, hnone⟩ := Bool.and_eq_true_iff.mp hcond
          obtain rfl := Option.isNone_iff_eq_none.mp hnone
          rw [annotateLine_numbered (by simpa using hout) hheading]
          simp [PagePart.written]
      · next hno =>
          rw [annotateLine_alone]
          · simp [PagePart.written]
          · simp only [withAnchor, numberedHeading?]
            split at hno
            · rw [hno]
              rfl
            · next hcond =>
                split
                · rw [if_neg hcond]
                · rfl

/-- The anchor of a line is that of the section that starts there. -/
theorem filterMap_lineParts (d : Document) (l : Lattice) (marker : Text) (file : Path)
    (inChunk : Bool) (notes : LineNotes) (line : Text) :
    (d.lineParts l marker file inChunk notes line).filterMap PagePart.section?
      = notes.sectionStart.toList := by
  rw [lineParts]
  cases notes.sectionStart with
  | none => rfl
  | some s =>
      dsimp only
      split <;> rfl

/-- Put together, the parts of a page are the page. -/
theorem flatMap_pageParts (d : Document) (l : Lattice) (marker : Text) (file : Path) :
    (d.pageParts l marker file).flatMap PagePart.written = d.annotate l marker file := by
  rw [annotate_eq_flatMap, pageParts, List.flatMap_assoc]
  congr 1
  funext n
  rw [partsAt, emitted]
  cases (d.textOf file).lines[n]? with
  | none => rfl
  | some line => exact d.flatMap_lineParts l marker file _ _ line

/-- The anchors of a page are those of the sections on record, line by line. -/
theorem filterMap_pageParts (d : Document) (l : Lattice) (marker : Text) (file : Path) :
    (d.pageParts l marker file).filterMap PagePart.section?
      = (List.range (d.textOf file).lines.length).filterMap
          fun n => (d.sectionsIn file).get? (n + 1) := by
  rw [pageParts, List.filterMap_flatMap, List.filterMap_eq_flatMap_toList]
  refine List.flatMap_congr fun n hn => ?_
  rw [partsAt, List.getElem?_eq_getElem (List.mem_range.mp hn), ← sectionStart_notes]
  exact d.filterMap_lineParts l marker file _ _ _

/-- Where no two sections on record have the same numbers, no two anchors of the page are the
    same. -/
theorem pairwise_pageParts {d : Document} {file : Path}
    (hdistinct : (d.sectionsIn file).Pairwise fun e e' => e.2.numbers ≠ e'.2.numbers)
    (hone : ∀ e ∈ d.sectionsIn file, ∀ n ∈ e.2.numbers, 1 ≤ n) (l : Lattice) (marker : Text) :
    ((d.pageParts l marker file).filterMap PagePart.section?).Pairwise
      fun s t => s.anchor ≠ t.anchor := by
  have : Std.Symm fun e e' : Nat × Section => e.2.numbers ≠ e'.2.numbers := ⟨fun _ _ => Ne.symm⟩
  rw [filterMap_pageParts]
  refine List.pairwise_filterMap.mpr (List.pairwise_lt_range.imp ?_)
  intro n m hlt s hs t ht
  have hs := LineMap.mem_of_get? hs
  have ht := LineMap.mem_of_get? ht
  rw [Ne, Section.anchor_eq_iff, Section.label_eq_iff (hone _ hs) (hone _ ht)]
  refine hdistinct.forall hs ht fun heq => ?_
  have hnumber : n + 1 = m + 1 := congrArg Prod.fst heq
  omega

end Document

namespace Move

/-- **Sections are numbered upwards.**  Let a scanner start at a document, with no section on
    record, and let it read lines and go on to documents in any order.  Every heading that
    it enters has as many numbers as signs, all of them at least one, and comes behind
    all headings that were entered before it, in whatever document.  Of all sections that
    a scanner can come to stand in, those with the same label have the same numbers; so
    no two headings have the same label or the same anchor, and on the page of any
    document, with any pages named, any lattice and any marker, no two of the anchors put
    there are the same.  Section numbers are counted without a bound, as long as no counter
    reaches `2 ^ 32` (`Section`). -/
theorem numbers_sections_upwards (file : Path) (d : Document) (hd : ∀ f, d.sectionsIn f = [])
    (moves : List Move) :
    (∀ h, h ∈ headings (.start file) moves ↔ ∃ before after s' d',
      moves = before ++ .line h.1 :: after ∧ before.foldl apply (.start file, d) = (s', d') ∧
      (∃ level title, s'.kind h.1 = .heading level title) ∧
      ((d'.record s' h.1).sectionsIn s'.file).get? (s'.lineNumber + 1) = some h.2) ∧
    (∀ h ∈ headings (.start file) moves,
      h.2.numbers.length = (h.1.takeWhile (· == '#')).length ∧ ∀ n ∈ h.2.numbers, 1 ≤ n) ∧
    (headings (.start file) moves).Pairwise (fun h h' => h.2.compare h'.2 = .lt) ∧
    (∀ (f g : Path) (way way' : List Move),
      (way.foldl next (.start f)).current.label = (way'.foldl next (.start g)).current.label ↔
        (way.foldl next (.start f)).current.numbers = (way'.foldl next (.start g)).current.numbers) ∧
    (headings (.start file) moves).Pairwise
      (fun h h' => h.2.label ≠ h'.2.label ∧ h.2.anchor ≠ h'.2.anchor) ∧
    ∀ (outputs : OrderedMap Path Path) (f : Path) (l : Lattice) (marker : Text) (d' : Document),
      d' = { (moves.foldl apply (.start file, d)).2 with outputs } →
      (d'.pageParts l marker f).flatMap PagePart.written = d'.annotate l marker f ∧
      ((d'.pageParts l marker f).filterMap PagePart.section?).Pairwise
        fun s t => s.anchor ≠ t.anchor := by
  have hroot : ∀ f : Path, ∀ n ∈ (Scanner.start f).current.numbers, 1 ≤ n :=
    fun f => List.forall_mem_nil _
  have hheadings : ∀ h ∈ headings (.start file) moves,
      h.2.numbers.length = (h.1.takeWhile (· == '#')).length ∧ ∀ n ∈ h.2.numbers, 1 ≤ n :=
    fun h hh => numbers_of_mem_headings (hroot file) hh
  have horder := pairwise_headings (.start file) moves
  refine ⟨fun h => mem_headings_iff, hheadings, ?_, ?_, ?_, ?_⟩
  · exact horder.imp Section.compare_eq_lt_iff.mpr
  · intro f g way way'
    exact Section.label_eq_iff (one_le_foldl_next (hroot f) way) (one_le_foldl_next (hroot g) way')
  · refine horder.imp_of_mem fun {h h'} hh hh' hlt => ?_
    have hlabel : h.2.label ≠ h'.2.label := by
      rw [Ne, Section.label_eq_iff (hheadings h hh).2 (hheadings h' hh').2]
      intro heq
      rw [heq] at hlt
      exact lt_irrefl _ hlt
    exact ⟨hlabel, fun hanchor => hlabel (Section.anchor_eq_iff.mp hanchor)⟩
  · intro outputs f l marker d' hd'
    have hordered := (Ordered.start file hd).foldl moves
    have hsections : d'.sectionsIn f = (moves.foldl apply (.start file, d)).2.sectionsIn f := by
      rw [hd']
      rfl
    refine ⟨d'.flatMap_pageParts l marker f, Document.pairwise_pageParts ?_ ?_ l marker⟩
    · rw [hsections]
      exact hordered.distinct f
    · rw [hsections]
      exact hordered.positive f

/-- The run over the pamphlet makes moves, and no page of it has an anchor twice. -/
theorem pamphlet_numbered :
    (Scan.run Scan.pamphlet ⟨['b']⟩ true).failure = none ∧
    ∀ f, ((Scan.boundPamphlet.pageParts Scan.boundPamphlet.lattice [] f).filterMap
      PagePart.section?).Pairwise fun s t => s.anchor ≠ t.anchor := by
  have hok : (Scan.run Scan.pamphlet ⟨['b']⟩ true).failure = none := by decide +kernel
  obtain ⟨moves, hmoves⟩ := Scan.exists_moves_run hok
  obtain ⟨-, -, -, -, -, hpages⟩ := numbers_sections_upwards (Path.normalize ⟨['b']⟩)
    (Document.empty.schedule (Path.normalize ⟨['b']⟩)) (fun _ => rfl) moves
  rw [hmoves] at hpages
  exact ⟨hok, fun f =>
    (hpages Scan.boundPamphlet.outputs f Scan.boundPamphlet.lattice [] _ rfl).2⟩

end Move

end Literate
