import Literate.Proofs.Page.Anchor
import Literate.Proofs.Page.Headings
import Mathlib.Data.List.Pairwise

/-! # Pages follow the scan

    A page is made from the lines kept of a document and from what was noted
    about their numbers; the scanner that made the notes is gone.  This module
    says that the two passes are in step.

    * What is noted about a line is what the scanner found there
      (`Document.notes_of_visit`).  So before each line the page knows as well as
      the scanner did whether a chunk is open (`Document.openBehind_eq`), and what
      it has for the line is read off the scanner's state (`Document.emitted_eq`).
    * Inside a chunk no section starts, so that the lines of a block are passed on
      as they are (`Document.emitted_inside`).
    * A section starts at a heading, or else at a first line that is none; a line
      that did not lose a carriage return is therefore a heading for both or for
      neither (`Document.emitsHeading_of_kind`, `Document.level_of_emitsHeading`). -/

namespace Literate

/-! ## What is noted about a line -/

/-- The number of a line tells the line. -/
theorem Scanner.eq_of_lineNumber_eq {s : Scanner} {lines : List Text} {v w : Scanner × Text}
    (hv : v ∈ s.visits lines) (hw : w ∈ s.visits lines)
    (h : v.1.lineNumber = w.1.lineNumber) : v = w := by
  have : Std.Symm fun v w : Scanner × Text => v.1.lineNumber ≠ w.1.lineNumber :=
    ⟨fun _ _ => Ne.symm⟩
  have hdistinct : (s.visits lines).Pairwise fun v w => v.1.lineNumber ≠ w.1.lineNumber :=
    (s.pairwise_visits lines).imp Nat.ne_of_lt
  exact Classical.byContradiction fun hne => hdistinct.forall hv hw hne h

/-- Under the number of a line the entries of lines have what the line says. -/
theorem get?_entriesOf {ν : Type} (event : Scanner → Text → Option ν) {s : Scanner}
    {lines : List Text} {v : Scanner × Text} (hv : v ∈ s.visits lines) :
    LineMap.get? (v.1.lineNumber + 1) (entriesOf event (s.visits lines)) = event v.1 v.2 := by
  cases hevent : event v.1 v.2 with
  | some x =>
      refine LineMap.get?_of_mem (pairwise_entriesOf event s lines) ?_
      refine List.mem_filterMap.mpr ⟨v, hv, ?_⟩
      rw [hevent]
      rfl
  | none =>
      rw [LineMap.get?, List.lookup_eq_none_iff]
      intro e he
      obtain ⟨w, hw, he⟩ := List.mem_filterMap.mp he
      obtain ⟨x, hx, rfl⟩ := Option.map_eq_some_iff.mp he
      refine bne_iff_ne.mpr fun hnumber => ?_
      obtain rfl := Scanner.eq_of_lineNumber_eq hv hw (Nat.succ.inj hnumber)
      rw [hevent] at hx
      cases hx

namespace Scanner

/-- What the scanner notes about a line. -/
def notes (s : Scanner) (line : Text) : Document.LineNotes :=
  ⟨s.opened line, s.sectionAt line, s.closed line⟩

/-- From the notes on a line, whether a chunk is open behind it. -/
theorem inChunkAfter_notes (s : Scanner) (line : Text) :
    Document.inChunkAfter s.inChunk (s.notes line) = (s.next line).inChunk := by
  simp only [Document.inChunkAfter, notes]
  rcases s.kind_cases line with ⟨hin, -, hk⟩ | ⟨hin, -, hk⟩ | ⟨name, hin, -, hk⟩ | ⟨hin, -, hk⟩
  · rw [next_of_close hk, closed, hk]
    rfl
  · obtain ⟨hopened, hclosed, -⟩ : s.opened line = none ∧ s.closed line = none ∧ _ := by
      rcases hk with hk | ⟨ref, hk⟩
      · exact no_fence (by simp [hk]) (by simp [hk])
      · exact no_fence (by simp [hk]) (by simp [hk])
    rw [(next_of_content hk).1, hopened, hclosed, hin]
    rfl
  · rw [(next_of_open hk).1, closed, opened, hk, hin]
    rfl
  · obtain ⟨hopened, hclosed, -⟩ : s.opened line = none ∧ s.closed line = none ∧ _ := by
      rcases hk with hk | ⟨level, text, hk⟩
      · exact no_fence (by simp [hk]) (by simp [hk])
      · exact no_fence (by simp [hk]) (by simp [hk])
    rw [next_of_prose hk, hopened, hclosed, hin]
    rfl

end Scanner

namespace Document

variable {d : Document} {p : Pass}

/-- What is noted about a line is what the scanner noted there. -/
theorem notes_of_visit (h : d.shown p.file = p.shown) {v : Scanner × Text} (hv : v ∈ p.visits) :
    d.notes p.file (v.1.lineNumber + 1) = v.1.notes v.2 := by
  obtain ⟨hstarts, hends, hsections, -⟩ := Shown.mk.inj h
  have hread : ∀ {ν : Type} (index : OrderedMap Path (LineMap ν)) (n : Nat),
      (index.get? p.file).bind (LineMap.get? n)
        = LineMap.get? n ((index.get? p.file).getD []) := by
    intro ν index n
    cases index.get? p.file <;> rfl
  rw [notes, hread, hread, hread, Scanner.notes]
  congr 1
  · exact (congrArg _ hstarts).trans (get?_entriesOf Scanner.opened hv)
  · exact (congrArg _ hsections).trans (get?_entriesOf Scanner.sectionAt hv)
  · exact (congrArg _ hends).trans (get?_entriesOf Scanner.closed hv)

/-- At each line the page knows whether a chunk is open, as the scanner did. -/
theorem openBehind_visits {s : Scanner} {lines : List Text} {file : Path}
    (h : ∀ v ∈ s.visits lines, d.notes file (v.1.lineNumber + 1) = v.1.notes v.2)
    {kept : List Text} (hkept : kept.length = lines.length) :
    d.openBehind file (s.lineNumber + 1) s.inChunk kept = (lines.foldl Scanner.next s).inChunk := by
  induction lines generalizing s kept with
  | nil =>
      rw [List.length_eq_zero_iff.mp hkept]
      rfl
  | cons line lines ih =>
      obtain ⟨text, kept, rfl⟩ := List.exists_cons_of_length_eq_add_one hkept
      have ih := ih (s := s.next line) (fun v hv => h v (List.mem_cons_of_mem _ hv))
        (Nat.succ.inj hkept)
      rw [openBehind, h (s, line) List.mem_cons_self, Scanner.inChunkAfter_notes]
      rw [Scanner.next_lineNumber] at ih
      exact ih

/-! ## What the page has for a line -/

/-- What the page has in the place of line `n + 1` of a document. -/
def emitted (d : Document) (l : Lattice) (marker : Text) (file : Path) (n : Nat) : Text :=
  match (d.textOf file).lines[n]? with
  | none => []
  | some line =>
    d.annotateLine l marker file (d.openBehind file 1 false ((d.textOf file).lines.take n))
      (d.notes file (n + 1)) line

/-- The page has line `n + 1` of a document as a heading, with number and anchor of `s`. -/
def EmitsHeading (d : Document) (l : Lattice) (marker : Text) (file : Path) (n : Nat)
    (s : Section) (heading : Text) : Prop :=
  ∃ line, (d.textOf file).lines[n]? = some line ∧
    numberedHeading? (d.linkedLine file
      (d.openBehind file 1 false ((d.textOf file).lines.take n)) (d.notes file (n + 1)) line) s
      = some heading ∧
    d.emitted l marker file n = heading ++ ['\n']

/-- The page is what it has for the lines, one behind the other. -/
theorem annotate_eq_flatMap (d : Document) (l : Lattice) (marker : Text) (file : Path) :
    d.annotate l marker file
      = (List.range (d.textOf file).lines.length).flatMap (d.emitted l marker file) := by
  have hfront : ∀ n ≤ (d.textOf file).lines.length,
      d.annotateFrom l marker file 1 false ((d.textOf file).lines.take n)
        = (List.range n).flatMap (d.emitted l marker file) := by
    intro n hn
    induction n with
    | zero => rfl
    | succ n ih =>
        have hlength : ((d.textOf file).lines.take n).length = n := by
          rw [List.length_take]
          omega
        have hget : (d.textOf file).lines[n]? = some (d.textOf file).lines[n] :=
          List.getElem?_eq_getElem hn
        rw [List.take_add_one, hget, Option.toList_some, annotateFrom_append, ih (by omega), hlength,
          List.range_succ, List.flatMap_append, List.flatMap_singleton, emitted, hget, annotateFrom,
          annotateFrom, List.append_nil, Nat.add_comm 1 n]
  rw [annotate_eq, ← hfront _ (Nat.le_refl _), List.take_length]

/-- Inside a chunk, where no section starts, a line stays as it is. -/
theorem annotateLine_inside (d : Document) (l : Lattice) (marker : Text) (file : Path)
    (line : Text) : d.annotateLine l marker file true ⟨none, none, none⟩ line = line ++ ['\n'] := by
  simp [annotateLine, withAnchor, linkedLine]

theorem annotateLine_close (d : Document) (l : Lattice) (marker : Text) (file : Path)
    (e : ChunkEnd) (line : Text) :
    d.annotateLine l marker file true ⟨none, none, some e⟩ line
      = line ++ '\n' :: (d.addedToText file e ++ d.usedInText l file e) := by
  simp [annotateLine, withAnchor, linkedLine]

theorem annotateLine_open (d : Document) (l : Lattice) (marker : Text) (file : Path)
    (inChunk : Bool) (name : ChunkName) (start : Option Section) (line : Text) :
    d.annotateLine l marker file inChunk ⟨some name, start, none⟩ line
      = (start.map anchorLine).getD [] ++ marker ++ name.text ++ "\n\n".toList
        ++ taggedFence l line name ++ ['\n'] := by
  cases start with
  | none => simp [annotateLine, withAnchor]
  | some s =>
      cases hheading : numberedHeading? line s <;>
        simp [annotateLine, withAnchor, linkedLine, hheading]

theorem annotateLine_heading (d : Document) (l : Lattice) (marker : Text) (file : Path)
    {s : Section} {line heading : Text}
    (h : numberedHeading? (d.retargetLinks file line) s = some heading) :
    d.annotateLine l marker file false ⟨none, some s, none⟩ line = heading ++ ['\n'] := by
  simp [annotateLine, withAnchor, linkedLine, h]

end Document

namespace Scanner

variable {s t : Scanner}

/-- Whether a chunk is open depends on the lines since the start. -/
theorem inChunk_foldl_congr (h : s.inChunk = t.inChunk) (lines : List Text) :
    (lines.foldl next s).inChunk = (lines.foldl next t).inChunk := by
  induction lines generalizing s t with
  | nil => exact h
  | cons line lines ih =>
      refine ih ?_
      rw [next, next, kind, kind, h]
      split <;> first | exact h | rfl

/-- Inside a chunk no section starts. -/
theorem sectionAt_inside (hin : s.inChunk = true) (hnumber : s.lineNumber ≠ 0) (line : Text) :
    s.sectionAt line = none := by
  rw [sectionAt_of_not_heading, if_neg hnumber]
  intro level text hk
  rcases s.kind_cases line with ⟨-, -, hk'⟩ | ⟨-, -, hk' | ⟨ref, hk'⟩⟩ | ⟨name, hout, -⟩ | ⟨hout, -⟩
  · rw [hk'] at hk
    cases hk
  · rw [hk'] at hk
    cases hk
  · rw [hk'] at hk
    cases hk
  · rw [hin] at hout
    cases hout
  · rw [hin] at hout
    cases hout

end Scanner

namespace Pass

variable {read : Path → Except Fault Text} {p : Pass}

/-- The state in which the scanner meets line `n + 1`. -/
def stateAt (p : Pass) (n : Nat) : Scanner :=
  (p.lines.take n).foldl Scanner.next p.start

theorem stateAt_mem_visits {n : Nat} {line : Text} (hline : p.lines[n]? = some line) :
    (p.stateAt n, line) ∈ p.visits := by
  obtain ⟨hn, hget⟩ := List.getElem?_eq_some_iff.mp hline
  have hsplit : p.lines = p.lines.take n ++ line :: p.lines.drop (n + 1) := by
    rw [← hget, List.getElem_cons_drop, List.take_append_drop]
  rw [visits, hsplit, Scanner.visits_append]
  exact List.mem_append_right _ List.mem_cons_self

theorem lineNumber_stateAt (h : p.Of read) {n : Nat} {line : Text}
    (hline : p.lines[n]? = some line) : (p.stateAt n).lineNumber = n := by
  obtain ⟨hn, -⟩ := List.getElem?_eq_some_iff.mp hline
  rw [stateAt, Scanner.lineNumber_foldl_next, h.atStart.lineNumber, List.length_take,
    List.length_nil]
  omega

theorem stateAt_of_mem_visits (h : p.Of read) {v : Scanner × Text} (hv : v ∈ p.visits) :
    v.1 = p.stateAt v.1.lineNumber ∧ p.lines[v.1.lineNumber]? = some v.2 := by
  obtain ⟨before, rest, hlines, hstate⟩ := Scanner.mem_visits hv
  have hnumber : v.1.lineNumber = before.length := by
    rw [hstate]
    exact (h.atStart.foldl_next before).lineNumber
  rw [hnumber, stateAt, hlines, List.take_left, List.getElem?_append_right (Nat.le_refl _),
    Nat.sub_self]
  exact ⟨hstate, rfl⟩

/-- No chunk is open before the first line. -/
theorem ne_zero_of_inChunk (h : p.Of read) {n : Nat} (hin : (p.stateAt n).inChunk = true) :
    n ≠ 0 := by
  rintro rfl
  have hstart : p.stateAt 0 = p.start := rfl
  rw [hstart, h.atStart.inChunk_eq] at hin
  cases hin

/-- At the opening fence of a block the scanner opens its chunk. -/
theorem opened_of_block (h : p.Of read) {name : ChunkName} {first last : Nat}
    (hblock : Block p.lines name first last) :
    ∃ line, p.lines[first - 1]? = some line ∧ (p.stateAt (first - 1)).opened line = some name := by
  obtain ⟨blocks, hblocks⟩ := p.exists_fenced h
  obtain ⟨b, hb, rfl, rfl, rfl⟩ := hblocks.complete h.atStart hblock
  have hentry : b.opening ∈ entriesOf Scanner.opened p.visits := by
    rw [visits, hblocks.starts]
    exact List.mem_map_of_mem hb
  obtain ⟨v, hv, hentry⟩ := List.mem_filterMap.mp hentry
  obtain ⟨name, hopened, hentry⟩ := Option.map_eq_some_iff.mp hentry
  obtain ⟨hfirst, rfl⟩ := Prod.mk.inj hentry
  obtain ⟨hstate, hline⟩ := stateAt_of_mem_visits h hv
  have hnumber : b.first - 1 = v.1.lineNumber := by omega
  rw [hnumber, ← hstate]
  exact ⟨v.2, hline, hopened⟩

/-- Between the fences of a block its chunk is open. -/
theorem inChunk_of_block (h : p.Of read) {name : ChunkName} {first last : Nat}
    (hblock : Block p.lines name first last) {n : Nat} (hfirst : first ≤ n) (hlast : n + 1 < last)
    {line : Text} (hline : p.lines[n]? = some line) :
    (p.stateAt n).inChunk = true ∧ line ≠ fence := by
  obtain ⟨blocks, hblocks⟩ := p.exists_fenced h
  obtain ⟨b, hb, rfl, rfl, rfl⟩ := hblocks.complete h.atStart hblock
  have hcontent := (hblocks.content _ (stateAt_mem_visits hline) b.name).mpr
  rw [lineNumber_stateAt h hline] at hcontent
  obtain ⟨hin, hfence, -⟩ := hcontent ⟨b, hb, rfl, hfirst, hlast⟩
  exact ⟨hin, hfence⟩

/-- At the closing fence of a block the scanner closes its chunk. -/
theorem closed_of_block (h : p.Of read) {name : ChunkName} {first last : Nat}
    (hblock : Block p.lines name first last) :
    p.lines[last - 1]? = some fence ∧ (p.stateAt (last - 1)).inChunk = true := by
  obtain ⟨blocks, hblocks⟩ := p.exists_fenced h
  obtain ⟨b, hb, rfl, rfl, rfl⟩ := hblocks.complete h.atStart hblock
  have hentry : b.closing ∈ entriesOf Scanner.closed p.visits := by
    rw [visits, hblocks.ends]
    exact List.mem_map_of_mem hb
  obtain ⟨v, hv, hentry⟩ := List.mem_filterMap.mp hentry
  obtain ⟨e, hclosed, hentry⟩ := Option.map_eq_some_iff.mp hentry
  obtain ⟨hstate, hline⟩ := stateAt_of_mem_visits h hv
  have hnumber : b.last - 1 = v.1.lineNumber := by
    rw [← (Prod.mk.inj hentry).1, Nat.add_sub_cancel]
  have hclose : v.1.inChunk = true ∧ v.2 = fence := by
    refine Classical.byContradiction fun hno => ?_
    rcases v.1.kind_cases v.2 with ⟨hin, hfence, -⟩ | ⟨hin, hfence, -⟩ | ⟨name, -, -, hk⟩
      | ⟨hout, hopen, -⟩
    · exact hno ⟨hin, hfence⟩
    · rw [(Scanner.no_fence_inside hin hfence).2.1] at hclosed
      cases hclosed
    · rw [Scanner.closed, hk] at hclosed
      cases hclosed
    · rw [(Scanner.no_fence_outside hout hopen).1.2.1] at hclosed
      cases hclosed
  rw [hnumber, ← hstate, hline, hclose.2]
  exact ⟨rfl, hclose.1⟩

end Pass

namespace Document

variable {read : Path → Except Fault Text} {d : Document} {p : Pass}

/-- The text kept of a document is cut where the document was cut. -/
theorem lines_textOf (hof : p.Of read) (h : d.shown p.file = p.shown) :
    (d.textOf p.file).lines = p.lines.map Text.withoutReturn := by
  obtain ⟨-, -, -, htext⟩ := Shown.mk.inj h
  obtain ⟨content, -, hlines⟩ := hof.read_eq
  rw [htext]
  refine Text.lines_unlines ?_
  rw [← hlines]
  exact fun line => Text.newline_notMem_of_mem_lines

/-- **The page is in step with the scanner.**  Before each line it has a chunk open if and
    only if the scanner had one open there. -/
theorem openBehind_eq (hof : p.Of read) (h : d.shown p.file = p.shown) (n : Nat) :
    d.openBehind p.file 1 false ((d.textOf p.file).lines.take n) = (p.stateAt n).inChunk := by
  have hnumber : p.start.lineNumber + 1 = 1 := by
    rw [hof.atStart.lineNumber]
    rfl
  have hlength : ((d.textOf p.file).lines.take n).length = (p.lines.take n).length := by
    rw [lines_textOf hof h, ← List.map_take, List.length_map]
  have hnotes : ∀ v ∈ p.start.visits (p.lines.take n),
      d.notes p.file (v.1.lineNumber + 1) = v.1.notes v.2 := by
    intro v hv
    refine notes_of_visit h ?_
    rw [Pass.visits, ← List.take_append_drop n p.lines, Scanner.visits_append]
    exact List.mem_append_left _ hv
  have hopen := openBehind_visits hnotes hlength
  rw [hnumber, hof.atStart.inChunk_eq] at hopen
  exact hopen

theorem notes_eq (hof : p.Of read) (h : d.shown p.file = p.shown) {n : Nat} {line : Text}
    (hline : p.lines[n]? = some line) :
    d.notes p.file (n + 1) = (p.stateAt n).notes line := by
  have hnotes := notes_of_visit h (Pass.stateAt_mem_visits hline)
  rw [Pass.lineNumber_stateAt hof hline] at hnotes
  exact hnotes

/-- So the page has for a line what the scanner's state makes of it. -/
theorem emitted_eq (hof : p.Of read) (h : d.shown p.file = p.shown) (l : Lattice) (marker : Text)
    {n : Nat} {line : Text} (hline : p.lines[n]? = some line) :
    d.emitted l marker p.file n
      = d.annotateLine l marker p.file (p.stateAt n).inChunk ((p.stateAt n).notes line)
          line.withoutReturn := by
  have hget : (d.textOf p.file).lines[n]? = some line.withoutReturn := by
    rw [lines_textOf hof h, List.getElem?_map, hline]
    rfl
  rw [emitted, hget, ← openBehind_eq hof h, ← notes_eq hof h hline]

/-! ## The lines of a block -/

theorem emitted_open (hof : p.Of read) (h : d.shown p.file = p.shown) (l : Lattice) (marker : Text)
    {name : ChunkName} {first last : Nat} (hblock : Block p.lines name first last) :
    ∃ line, (d.textOf p.file).lines[first - 1]? = some line ∧
      d.emitted l marker p.file (first - 1)
        = ((d.notes p.file first).sectionStart.map anchorLine).getD [] ++ marker ++ name.text
          ++ "\n\n".toList ++ taggedFence l line name ++ ['\n'] := by
  obtain ⟨line, hline, hopened⟩ := Pass.opened_of_block hof hblock
  obtain ⟨before, opening, inside, after, -, -, -, -, hfirst, -⟩ := hblock
  have hnumber : first - 1 + 1 = first := by omega
  have hclosed : (p.stateAt (first - 1)).closed line = none := by
    rw [Scanner.closed]
    rw [Scanner.opened] at hopened
    cases hk : (p.stateAt (first - 1)).kind line with
    | chunkClose =>
        rw [hk] at hopened
        cases hopened
    | _ => rfl
  refine ⟨line.withoutReturn, ?_, ?_⟩
  · rw [lines_textOf hof h, List.getElem?_map, hline]
    rfl
  · have hnotes := notes_eq hof h hline
    rw [hnumber] at hnotes
    rw [emitted_eq hof h l marker hline, hnotes, Scanner.notes, hopened, hclosed,
      annotateLine_open]

theorem emitted_inside (hof : p.Of read) (h : d.shown p.file = p.shown) (l : Lattice)
    (marker : Text) {name : ChunkName} {first last : Nat} (hblock : Block p.lines name first last)
    {n : Nat} (hfirst : first ≤ n) (hlast : n + 1 < last) {text : Text}
    (htext : (d.textOf p.file).lines[n]? = some text) :
    d.emitted l marker p.file n = text ++ ['\n'] := by
  rw [lines_textOf hof h, List.getElem?_map] at htext
  obtain ⟨line, hline, rfl⟩ := Option.map_eq_some_iff.mp htext
  obtain ⟨hin, hfence⟩ := Pass.inChunk_of_block hof hblock hfirst hlast hline
  have hzero := Pass.ne_zero_of_inChunk hof hin
  rw [← Pass.lineNumber_stateAt hof hline] at hzero
  obtain ⟨hopened, hclosed, -⟩ := Scanner.no_fence_inside hin hfence
  rw [emitted_eq hof h l marker hline, Scanner.notes, hopened, hclosed,
    Scanner.sectionAt_inside hin hzero, hin, annotateLine_inside]

theorem emitted_close (hof : p.Of read) (h : d.shown p.file = p.shown) (l : Lattice) (marker : Text)
    {name : ChunkName} {first last : Nat} (hblock : Block p.lines name first last) :
    (d.textOf p.file).lines[last - 1]? = some fence ∧
      ∃ e, (d.notes p.file last).chunkEnd = some e ∧
        d.emitted l marker p.file (last - 1)
          = fence ++ '\n' :: (d.addedToText p.file e ++ d.usedInText l p.file e) := by
  obtain ⟨hline, hin⟩ := Pass.closed_of_block hof hblock
  have hzero := Pass.ne_zero_of_inChunk hof hin
  rw [← Pass.lineNumber_stateAt hof hline] at hzero
  have hkind := Scanner.kind_fence hin
  have hnumber : last - 1 + 1 = last := by
    obtain ⟨before, opening, inside, after, -, -, -, -, -, hlast⟩ := hblock
    omega
  have hkept : fence.withoutReturn = fence := by decide
  have hopened : (p.stateAt (last - 1)).opened fence = none := by
    rw [Scanner.opened, hkind]
  have hclosed : (p.stateAt (last - 1)).closed fence
      = some ⟨(p.stateAt (last - 1)).chunkName, (p.stateAt (last - 1)).current⟩ := by
    rw [Scanner.closed, hkind]
  have hnotes := notes_eq hof h hline
  rw [Scanner.notes, hopened, hclosed, Scanner.sectionAt_inside hin hzero] at hnotes
  constructor
  · rw [lines_textOf hof h, List.getElem?_map, hline, Option.map_some, hkept]
  · refine ⟨⟨(p.stateAt (last - 1)).chunkName, (p.stateAt (last - 1)).current⟩, ?_, ?_⟩
    · rw [hnumber] at hnotes
      rw [hnotes]
    · rw [emitted_eq hof h l marker hline, ← notes_eq hof h hline, hnotes, hin, hkept,
        annotateLine_close]

/-! ## Headings -/

section Heading

variable {l : Lattice} {marker : Text} {n : Nat} {line heading : Text} {s : Section}

/-- A line that did not lose a carriage return is annotated as the scanner met it. -/
theorem emitsHeading_iff_numbered (hof : p.Of read) (h : d.shown p.file = p.shown)
    (hline : p.lines[n]? = some line) (hreturn : line.getLast? ≠ some '\r') :
    d.EmitsHeading l marker p.file n s heading ↔
      numberedHeading? (d.linkedLine p.file (p.stateAt n).inChunk ((p.stateAt n).notes line) line) s
        = some heading ∧
      d.annotateLine l marker p.file (p.stateAt n).inChunk ((p.stateAt n).notes line) line
        = heading ++ ['\n'] := by
  have hkept : line.withoutReturn = line := if_neg hreturn
  have hget : (d.textOf p.file).lines[n]? = some line := by
    rw [lines_textOf hof h, List.getElem?_map, hline, Option.map_some, hkept]
  rw [EmitsHeading, emitted_eq hof h l marker hline, openBehind_eq hof h, notes_eq hof h hline, hget,
    hkept]
  simp

/-- A line where a section starts is a heading on the page if it was one for the scanner. -/
theorem emitsHeading_of_kind (hof : p.Of read) (h : d.shown p.file = p.shown)
    (hline : p.lines[n]? = some line) (hreturn : line.getLast? ≠ some '\r')
    (hstart : (d.notes p.file (n + 1)).sectionStart = some s) {level : Nat} {title : Text}
    (hkind : (p.stateAt n).kind line = .heading level title) :
    ∃ heading, d.EmitsHeading l marker p.file n s heading := by
  obtain ⟨hout, -, hheading⟩ := Scanner.kind_eq_heading_iff.mp hkind
  have hopened : (p.stateAt n).opened line = none := by rw [Scanner.opened, hkind]
  have hclosed : (p.stateAt n).closed line = none := by rw [Scanner.closed, hkind]
  rw [notes_eq hof h hline, Scanner.notes] at hstart
  have hlevel := d.level_retargetLinks p.file line
  rw [hheading, Option.map_some] at hlevel
  obtain ⟨⟨level', title'⟩, hretargeted, -⟩ := Option.map_eq_some_iff.mp hlevel
  obtain ⟨heading, hnumbered⟩ :
      ∃ heading, numberedHeading? (d.retargetLinks p.file line) s = some heading := by
    rw [numberedHeading?, hretargeted]
    exact ⟨_, rfl⟩
  refine ⟨heading, (emitsHeading_iff_numbered hof h hline hreturn).mpr ?_⟩
  dsimp only at hstart
  rw [Scanner.notes, hopened, hclosed, hstart, hout]
  exact ⟨hnumbered, d.annotateLine_heading l marker p.file hnumbered⟩

/-- And only then, with the level that it had. -/
theorem level_of_emitsHeading (hof : p.Of read) (h : d.shown p.file = p.shown)
    (hline : p.lines[n]? = some line) (hreturn : line.getLast? ≠ some '\r')
    (hstart : (d.notes p.file (n + 1)).sectionStart = some s)
    (hemits : d.EmitsHeading l marker p.file n s heading) :
    ∃ level title title', (p.stateAt n).kind line = .heading level title ∧
      Line.heading? heading = some (level, title') := by
  obtain ⟨hnumbered, -⟩ := (emitsHeading_iff_numbered hof h hline hreturn).mp hemits
  have hlevel := level_numberedHeading? hnumbered
  obtain ⟨⟨level, title⟩, hheading, -⟩ := Option.map_eq_some_iff.mp hnumbered
  rw [notes_eq hof h hline, Scanner.notes] at hstart
  dsimp only at hstart
  have hout : (p.stateAt n).inChunk = false := by
    refine Bool.eq_false_iff.mpr fun hin => ?_
    have hzero := Pass.ne_zero_of_inChunk hof hin
    rw [← Pass.lineNumber_stateAt hof hline] at hzero
    rw [Scanner.sectionAt_inside hin hzero] at hstart
    cases hstart
  cases hopen : Line.fenceOpen? line with
  | some name =>
      -- on the line of a fence links are left alone, and a fence is no heading
      rw [linkedLine, Scanner.notes, Scanner.opened, Scanner.kind_open hout hopen] at hheading
      simp only [Option.isSome_some, Bool.or_true, if_true] at hheading
      rw [Line.heading?_of_fenceOpen? hopen] at hheading
      cases hheading
  | none =>
      have hopened := (Scanner.no_fence_outside hout hopen).1.1
      have hlinked : d.linkedLine p.file (p.stateAt n).inChunk ((p.stateAt n).notes line) line
          = d.retargetLinks p.file line := by
        rw [linkedLine, Scanner.notes, hopened, hout]
        rfl
      rw [hlinked] at hheading hlevel
      have hsame := d.level_retargetLinks p.file line
      rw [hheading, Option.map_some] at hsame
      rw [hheading, Option.map_some] at hlevel
      obtain ⟨⟨_, title⟩, hscanned, rfl⟩ := Option.map_eq_some_iff.mp hsame.symm
      obtain ⟨⟨_, title'⟩, hemitted, rfl⟩ := Option.map_eq_some_iff.mp hlevel
      exact ⟨_, title, title', Scanner.kind_eq_heading_iff.mpr ⟨hout, hopen, hscanned⟩, hemitted⟩

end Heading

end Document

namespace Scan

/-- **The page replays the scan.**  After a scan that did not fail, with any pages named, any
    lattice and any marker, the page of a document is what it has for the lines, one
    behind the other.  Before each line it has a chunk open if and only if the scanner
    has one open there, wherever the scanner came from.  For a block the page has the
    fence that opens it, its lines as they are kept, and the fence that closes it, with
    nothing between them; what it adds stands before the one fence and behind the other.
    And at a line where a section starts, if it was not met with a carriage return at its
    end, the page has a heading if and only if the scanner took the line for a heading,
    of the same level. -/
theorem page_replays_scan (read : Path → Except Fault Text) (root : Path) (book : Bool)
    (outputs : OrderedMap Path Path) (l : Lattice) (marker : Text) {d : Document}
    (hd : { (run read root book).document with outputs } = d)
    (hok : (run read root book).failure = none) {f : Path} (hf : f ∈ d.inputs) :
    ∃ content, read f = .ok content ∧
      d.annotate l marker f = (List.range content.lines.length).flatMap (d.emitted l marker f) ∧
      (∀ (s : Scanner) (follow : Bool) (n : Nat),
        d.openBehind f 1 false ((d.textOf f).lines.take n)
          = ((Pass.mk (s.startFile f follow) content.lines).stateAt n).inChunk) ∧
      (∀ name first last, Block content.lines name first last →
        (∃ line, (d.textOf f).lines[first - 1]? = some line ∧
          d.emitted l marker f (first - 1)
            = ((d.notes f first).sectionStart.map Document.anchorLine).getD [] ++ marker ++ name.text
              ++ "\n\n".toList ++ Document.taggedFence l line name ++ ['\n']) ∧
        (∀ n text, first ≤ n → n + 1 < last → (d.textOf f).lines[n]? = some text →
          d.emitted l marker f n = text ++ ['\n']) ∧
        (d.textOf f).lines[last - 1]? = some fence ∧
        ∃ e, (d.notes f last).chunkEnd = some e ∧
          d.emitted l marker f (last - 1)
            = fence ++ '\n' :: (d.addedToText f e ++ d.usedInText l f e)) ∧
      ∀ (s : Scanner) (follow : Bool) (n : Nat) (line : Text) (started : Section),
        content.lines[n]? = some line → line.getLast? ≠ some '\r' →
        (d.notes f (n + 1)).sectionStart = some started →
        ((∃ heading, d.EmitsHeading l marker f n started heading) ↔
          ∃ level title, ((Pass.mk (s.startFile f follow) content.lines).stateAt n).kind line
            = .heading level title) ∧
        ∀ heading, d.EmitsHeading l marker f n started heading →
          ∃ level title title', ((Pass.mk (s.startFile f follow) content.lines).stateAt n).kind line
              = .heading level title ∧
            Line.heading? heading = some (level, title') := by
  subst hd
  obtain ⟨-, ps, hfiles, hps⟩ := passed_run hok
  obtain ⟨p, hp, rfl⟩ : ∃ p ∈ ps, p.file = f := by
    rw [← List.mem_map, hfiles]
    exact hf
  have hof := hps.of p hp
  have hshown : ({ (run read root book).document with outputs } : Document).shown p.file = p.shown :=
    hps.shown p hp
  obtain ⟨content, hread, hlines⟩ := hof.read_eq
  -- any scanner that begins this document is in step with the one of the scan
  have hstate : ∀ (s : Scanner) (follow : Bool) (n : Nat),
      ((Pass.mk (s.startFile p.file follow) content.lines).stateAt n).inChunk
        = (p.stateAt n).inChunk := by
    intro s follow n
    rw [Pass.stateAt, Pass.stateAt, hlines]
    exact Scanner.inChunk_foldl_congr hof.atStart.inChunk_eq.symm (p.lines.take n)
  refine ⟨content, hread, ?_, ?_, ?_, ?_⟩
  · rw [Document.annotate_eq_flatMap, Document.lines_textOf hof hshown, List.length_map, hlines]
  · intro s follow n
    rw [hstate, Document.openBehind_eq hof hshown]
  · rw [hlines]
    intro name first last hblock
    refine ⟨Document.emitted_open hof hshown l marker hblock, ?_,
      Document.emitted_close hof hshown l marker hblock⟩
    intro n text hfirst hlast htext
    exact Document.emitted_inside hof hshown l marker hblock hfirst hlast htext
  · rw [hlines]
    intro s follow n line started hline hreturn hstart
    have hkind : ((Pass.mk (s.startFile p.file follow) p.lines).stateAt n).kind line
        = (p.stateAt n).kind line := by
      rw [Scanner.kind, Scanner.kind, ← hlines, hstate]
    rw [hkind]
    have hlevel : ∀ heading, Document.EmitsHeading _ l marker p.file n started heading →
        ∃ level title title', (p.stateAt n).kind line = .heading level title ∧
          Line.heading? heading = some (level, title') :=
      fun heading => Document.level_of_emitsHeading hof hshown hline hreturn hstart
    refine ⟨⟨?_, ?_⟩, hlevel⟩
    · rintro ⟨heading, hemits⟩
      obtain ⟨level, title, -, hheading, -⟩ := hlevel heading hemits
      exact ⟨level, title, hheading⟩
    · rintro ⟨level, title, hheading⟩
      exact Document.emitsHeading_of_kind hof hshown hline hreturn hstart hheading

/-- The root of the pamphlet begins with a heading, which is one on its page, and its block
    begins in the second line, so that a chunk is open before the third. -/
theorem pamphlet_replayed :
    (run pamphlet ⟨['b']⟩ true).failure = none ∧
    ∃ f ∈ boundPamphlet.inputs, f.spelling = ['b'] ∧
      boundPamphlet.openBehind f 1 false ((boundPamphlet.textOf f).lines.take 2) = true ∧
      ∃ started heading, boundPamphlet.EmitsHeading boundPamphlet.lattice [] f 0 started heading ∧
        ∃ title, Line.heading? heading = some (1, title) := by
  have hok : (run pamphlet ⟨['b']⟩ true).failure = none := by decide +kernel
  have hroot : (boundPamphlet.inputs.any fun f => f.spelling == ['b'] &&
      (boundPamphlet.notes f 1).sectionStart.isSome) = true := by decide +kernel
  obtain ⟨f, hf, hroot⟩ := List.any_eq_true.mp hroot
  obtain ⟨hspelling, hstart⟩ := Bool.and_eq_true_iff.mp hroot
  obtain ⟨started, hstart⟩ := Option.isSome_iff_exists.mp hstart
  have hspelling := beq_iff_eq.mp hspelling
  have hcontent : pamphlet f = .ok "# B\n```a.x\nx\n```\n[c](c.md)\n".toList := by
    rw [pamphlet, if_pos hspelling]
  obtain ⟨content, hread, -, hopen, -, hheading⟩ := page_replays_scan pamphlet ⟨['b']⟩ true
    boundPamphlet.outputs boundPamphlet.lattice [] (d := boundPamphlet) rfl hok hf
  obtain rfl := Except.ok.inj (hcontent.symm.trans hread)
  have hkind : Line.kind "# B".toList false = .heading 1 ['B'] := by decide
  obtain ⟨hiff, hlevel⟩ := hheading (.start f) true 0 "# B".toList started (by decide +kernel)
    (by decide) hstart
  obtain ⟨heading, hemits⟩ := hiff.mpr ⟨1, ['B'], hkind⟩
  obtain ⟨level, title, title', hscanned, hemitted⟩ := hlevel heading hemits
  obtain ⟨rfl, -⟩ := LineKind.heading.inj (hkind.symm.trans hscanned)
  refine ⟨hok, f, hf, hspelling, ?_, started, heading, hemits, title', hemitted⟩
  rw [hopen (.start f) true 2]
  rfl

end Scan

end Literate
