import Literate.Proofs.Document.Block

/-! # What a scan records

    A scan goes through its documents line by line, and each line adds to the
    document set what it means where the scanner stands.  For the chunks that is
    at most one line: the line itself, under the name of the open chunk
    (`Document.linesOf_record`).

    * A whole document adds the lines that the scanner takes, in order
      (`Scanner.linesOf_foldl_step`).
    * A scan that did not fail has read each of its documents to the end, and
      none of them ends inside a block (`Scan.file_eq`).
    * So every line of every chunk is written inside a block of that name, in
      one of the documents, at its line number (`Scan.sourced_run`).  One
      document more keeps this (`Scan.Sourced.file`), and the documents of a run
      are on its list from the moment the root is read. -/

namespace Literate

/-! ## The lines under a name -/

namespace ChunkTable

/-- The lines under a name, none if there is no chunk. -/
def linesOf (t : ChunkTable) (name : ChunkName) : List ChunkLine :=
  ((t.get? name).getD .empty).lines

theorem linesOf_eq {t : ChunkTable} {name : ChunkName} {chunk : Chunk}
    (h : t.get? name = some chunk) : t.linesOf name = chunk.lines := by
  rw [linesOf]
  rw [h]
  rfl

/-- A line goes behind the lines of its chunk. -/
theorem linesOf_addLine (t : ChunkTable) (name x : ChunkName) (l : ChunkLine) :
    (t.addLine name l).linesOf x = t.linesOf x ++ (if name = x then [l] else []) := by
  simp only [linesOf, addLine]
  rw [OrderedMap.get?_alter]
  by_cases hx : name = x
  · subst hx
    rw [if_pos (beq_self_eq_true name), if_pos rfl]
    rfl
  · rw [if_neg (fun h => hx (beq_iff_eq.mp h)), if_neg hx, List.append_nil]

/-- A definition leaves the lines as they are. -/
theorem linesOf_addDefinition (t : ChunkTable) (name x : ChunkName) (d : Definition) :
    (t.addDefinition name d).linesOf x = t.linesOf x := by
  simp only [linesOf, addDefinition]
  rw [OrderedMap.get?_alter]
  by_cases hx : name = x
  · subst hx
    rw [if_pos (beq_self_eq_true name)]
    rfl
  · rw [if_neg (fun h => hx (beq_iff_eq.mp h))]

end ChunkTable

/-! ## One line -/

/-- What the scanner takes from its next line for the chunk of a name. -/
def Scanner.taken (s : Scanner) (line : Text) (name : ChunkName) : List ChunkLine :=
  if s.inChunk = true ∧ line ≠ fence ∧ s.chunkName = name then
    [⟨⟨s.file, s.lineNumber + 1⟩, line⟩]
  else []

theorem Scanner.mem_taken {s : Scanner} {line : Text} {name : ChunkName} {l : ChunkLine} :
    l ∈ s.taken line name ↔ s.inChunk = true ∧ line ≠ fence ∧ s.chunkName = name ∧
      l = ⟨⟨s.file, s.lineNumber + 1⟩, line⟩ := by
  rw [taken]
  by_cases h : s.inChunk = true ∧ line ≠ fence ∧ s.chunkName = name
  · rw [if_pos h, List.mem_singleton]
    exact ⟨fun hl => ⟨h.1, h.2.1, h.2.2, hl⟩, fun hl => hl.2.2.2⟩
  · rw [if_neg h]
    constructor
    · intro hl
      exact nomatch hl
    · rintro ⟨hin, hline, hname, -⟩
      exact absurd ⟨hin, hline, hname⟩ h

namespace Document

@[simp] theorem chunks_foldl_schedule (d : Document) (paths : List Path) :
    (paths.foldl schedule d).chunks = d.chunks := by
  induction paths generalizing d with
  | nil => rfl
  | cons path paths ih => exact ih (d.schedule path)

@[simp] theorem chunks_scheduleLinks (d : Document) (s : Scanner) (line : Text) :
    (d.scheduleLinks s line).chunks = d.chunks := by
  rw [scheduleLinks]
  split
  · exact chunks_foldl_schedule d _
  · rfl

@[simp] theorem chunks_recordSections (d : Document) (s : Scanner) (line : Text) :
    (d.recordSections s line).chunks = d.chunks := by
  rw [recordSections]
  cases s.kind line <;> (dsimp only; split <;> rfl)

@[simp] theorem chunks_appendLine (d : Document) (file : Path) (line : Text) :
    (d.appendLine file line).chunks = d.chunks := rfl

/-- Each line adds to the lines of a chunk what the scanner takes from it. -/
theorem linesOf_record (d : Document) (s : Scanner) (line : Text) (x : ChunkName) :
    (d.record s line).chunks.linesOf x = d.chunks.linesOf x ++ s.taken line x := by
  rw [record]
  -- links, sections and the kept lines leave the chunks alone
  rw [chunks_appendLine, ← chunks_scheduleLinks d s line,
    ← chunks_recordSections (d.scheduleLinks s line) s line]
  generalize (d.scheduleLinks s line).recordSections s line = d
  rw [recordChunk, Scanner.taken]
  rcases s.kind_cases line with ⟨-, hline, hk⟩ | ⟨hin, hline, hk⟩ | ⟨name, hin, -, hk⟩
    | ⟨hin, -, hk⟩
  · rw [hk, if_neg (fun h => h.2.1 hline), List.append_nil]
    rfl
  · have hadd : ((d.chunks.addLine s.chunkName ⟨(s.next line).location, line⟩).linesOf x)
        = d.chunks.linesOf x ++ (if s.inChunk = true ∧ line ≠ fence ∧ s.chunkName = x then
            [⟨⟨s.file, s.lineNumber + 1⟩, line⟩] else []) := by
      rw [ChunkTable.linesOf_addLine]
      simp [hin, hline, Scanner.location]
    rcases hk with hk | ⟨ref, hk⟩
    · rw [hk]
      exact hadd
    · rw [hk]
      exact hadd
  · rw [hk, if_neg (fun h => by simp [hin] at h), List.append_nil]
    dsimp only [recordStart]
    rw [ChunkTable.linesOf_addDefinition]
    split <;> rfl
  · rw [if_neg (fun h => by simp [hin] at h), List.append_nil]
    rcases hk with hk | ⟨level, text, hk⟩
    · rw [hk]
    · rw [hk]

/-- What is on the list of documents stays there. -/
theorem mem_inputs_schedule {d : Document} {p : Path} (h : p ∈ d.inputs) (path : Path) :
    p ∈ (d.schedule path).inputs := by
  rw [schedule, addNew]
  dsimp only
  split
  · exact h
  · exact List.mem_append_left _ h

theorem mem_inputs_scheduleLinks {d : Document} {p : Path} (h : p ∈ d.inputs) (s : Scanner)
    (line : Text) : p ∈ (d.scheduleLinks s line).inputs := by
  rw [scheduleLinks]
  split
  · generalize linkedFrom s.file line = paths
    induction paths generalizing d with
    | nil => exact h
    | cons path paths ih => exact ih (mem_inputs_schedule h path)
  · exact h

@[simp] theorem inputs_recordSections (d : Document) (s : Scanner) (line : Text) :
    (d.recordSections s line).inputs = d.inputs := by
  rw [recordSections]
  cases s.kind line <;> (dsimp only; split <;> rfl)

@[simp] theorem inputs_recordChunk (d : Document) (s : Scanner) (line : Text) :
    (d.recordChunk s line).inputs = d.inputs := by
  rw [recordChunk]
  cases s.kind line with
  | chunkOpen name => dsimp only [recordStart]; split <;> rfl
  | _ => rfl

/-- A line puts on the list what its links name, and nothing else. -/
theorem inputs_record (d : Document) (s : Scanner) (line : Text) :
    (d.record s line).inputs = (d.scheduleLinks s line).inputs := by
  rw [record, appendLine]
  rw [inputs_recordChunk, inputs_recordSections]

end Document

/-! ## One document -/

namespace Scanner

/-- The lines with the states in which the scanner meets them. -/
def visits (s : Scanner) : List Text → List (Scanner × Text)
  | [] => []
  | line :: lines => (s, line) :: (s.next line).visits lines

/-- The scanner meets a line in the state behind the lines before it. -/
theorem mem_visits {s : Scanner} {lines : List Text} {v : Scanner × Text}
    (h : v ∈ s.visits lines) :
    ∃ before rest, lines = before ++ v.2 :: rest ∧ v.1 = before.foldl next s := by
  induction lines generalizing s with
  | nil => exact nomatch h
  | cons line lines ih =>
      rcases List.mem_cons.mp h with rfl | h
      · exact ⟨[], lines, rfl, rfl⟩
      · obtain ⟨before, rest, rfl, hv⟩ := ih h
        exact ⟨line :: before, rest, rfl, hv⟩

@[simp] theorem file_foldl_next (s : Scanner) (lines : List Text) :
    (lines.foldl next s).file = s.file := by
  induction lines generalizing s with
  | nil => rfl
  | cons line lines ih =>
      rw [List.foldl_cons, ih, next_file]

/-- Where the scanner stands depends on the lines alone. -/
theorem fst_foldl_step (s : Scanner) (d : Document) (lines : List Text) :
    (lines.foldl step (s, d)).1 = lines.foldl next s := by
  induction lines generalizing s d with
  | nil => rfl
  | cons line lines ih => exact ih (s.next line) (d.record s line)

/-- A document adds to the lines of a chunk those that the scanner takes. -/
theorem linesOf_foldl_step (s : Scanner) (d : Document) (lines : List Text)
    (x : ChunkName) :
    (lines.foldl step (s, d)).2.chunks.linesOf x
      = d.chunks.linesOf x ++ (s.visits lines).flatMap fun v => v.1.taken v.2 x := by
  induction lines generalizing s d with
  | nil => exact (List.append_nil _).symm
  | cons line lines ih =>
      have hstep : step (s, d) line = (s.next line, d.record s line) := rfl
      rw [List.foldl_cons, hstep, ih, Document.linesOf_record, List.append_assoc]
      rfl

theorem mem_inputs_foldl_step {d : Document} {p : Path} (h : p ∈ d.inputs) (s : Scanner)
    (lines : List Text) : p ∈ (lines.foldl step (s, d)).2.inputs := by
  induction lines generalizing s d with
  | nil => exact h
  | cons line lines ih =>
      have hrec : p ∈ (d.record s line).inputs := by
        rw [Document.inputs_record]
        exact Document.mem_inputs_scheduleLinks h s line
      exact ih hrec (s.next line)

end Scanner

/-- The line is written inside a block of the given name, in its document and at its
    line number. -/
def ChunkLine.Written (read : Path → Except Fault Text) (name : ChunkName)
    (l : ChunkLine) : Prop :=
  ∃ content first last, read l.location.file = .ok content ∧
    content.lines[l.location.line - 1]? = some l.text ∧
    Block content.lines name first last ∧
    first < l.location.line ∧ l.location.line < last

/-- What the scanner takes from a document that does not end inside a block is
    written there. -/
theorem Scanner.written_of_taken {read : Path → Except Fault Text} {content : Text}
    {start : Scanner} (hat : start.At []) (hread : read start.file = .ok content)
    (hend : (content.lines.foldl Scanner.next start).inChunk = false)
    {v : Scanner × Text} (hv : v ∈ start.visits content.lines) {name : ChunkName}
    {l : ChunkLine} (hl : l ∈ v.1.taken v.2 name) :
    l.location.file = start.file ∧ l.Written read name := by
  obtain ⟨before, rest, hlines, hstate⟩ := mem_visits hv
  obtain ⟨hin, hline, rfl, rfl⟩ := mem_taken.mp hl
  have hfile : v.1.file = start.file := by rw [hstate, file_foldl_next]
  have hnumber : v.1.lineNumber = before.length := by
    rw [hstate]
    exact (hat.foldl_next before).lineNumber
  -- that the document is closed at its end is what gives the line a fence behind it
  rw [hlines] at hend
  obtain ⟨first, last, hblock, hfirst, hlast⟩ := block_of_content hat hstate hin hline hend
  refine ⟨hfile, content, first, last, ?_, ?_, ?_, hfirst, hlast⟩
  · rw [hfile]
    exact hread
  · show content.lines[v.1.lineNumber + 1 - 1]? = some v.2
    rw [hlines, hnumber, Nat.add_sub_cancel, List.getElem?_append_right (Nat.le_refl _),
      Nat.sub_self]
    rfl
  · rw [hlines]
    exact hblock

/-! ## One document after the other -/

namespace Scan

variable {read : Path → Except Fault Text} {follow : Bool} {scan : Scan} {path : Path}

/-- A scan goes on without a failure only if it has none, can read the document,
    and does not find it ending inside a block. -/
theorem file_eq (h : (file read follow scan path).failure = none) :
    ∃ content, scan.failure = none ∧ read path = .ok content ∧
      (content.lines.foldl Scanner.next (scan.scanner.startFile path follow)).inChunk
        = false ∧
      file read follow scan path =
        { scanner := content.lines.foldl Scanner.next (scan.scanner.startFile path follow)
          document := (content.lines.foldl Scanner.step
            (scan.scanner.startFile path follow, scan.document)).2
          started := scan.started ++ [path]
          failure := none } := by
  cases hf : scan.failure with
  | some failure =>
      -- a scan that has ended does nothing more, and its failure stays
      have hsame : file read follow scan path = scan := by
        rw [file]
        rw [hf]
        rfl
      rw [hsame, hf] at h
      exact nomatch h
  | none =>
      rw [file] at h ⊢
      rw [hf] at h ⊢
      cases hr : read path with
      | error fault =>
          rw [hr] at h
          exact nomatch h
      | ok content =>
          rw [hr] at h
          have hnext := Scanner.fst_foldl_step (scan.scanner.startFile path follow)
            scan.document content.lines
          cases hin : (content.lines.foldl Scanner.next
              (scan.scanner.startFile path follow)).inChunk with
          | true => simp [Scanner.readContent, hnext, hin] at h
          | false => exact ⟨content, rfl, rfl, hin, by simp [Scanner.readContent, hnext, hin]⟩

/-- A failure stays. -/
theorem failure_of_foldl {paths : List Path}
    (h : (paths.foldl (file read follow) scan).failure = none) : scan.failure = none := by
  induction paths generalizing scan with
  | nil => exact h
  | cons path paths ih =>
      obtain ⟨content, hscan, -⟩ := file_eq (ih h)
      exact hscan

/-- Every line of every chunk is written in a document on the list. -/
def Sourced (read : Path → Except Fault Text) (scan : Scan) : Prop :=
  ∀ name, ∀ l ∈ scan.document.chunks.linesOf name,
    l.location.file ∈ scan.document.inputs ∧ l.Written read name

/-- One document of the list keeps that so, and keeps the list. -/
theorem Sourced.file (h : scan.Sourced read) (hpath : path ∈ scan.document.inputs)
    (hok : (file read follow scan path).failure = none) :
    (file read follow scan path).Sourced read ∧
      ∀ p ∈ scan.document.inputs, p ∈ (file read follow scan path).document.inputs := by
  obtain ⟨content, -, hread, hend, heq⟩ := file_eq hok
  rw [heq]
  have hkeep : ∀ p ∈ scan.document.inputs, p ∈ (content.lines.foldl Scanner.step
      (scan.scanner.startFile path follow, scan.document)).2.inputs := by
    intro p hp
    exact Scanner.mem_inputs_foldl_step hp _ _
  refine ⟨?_, hkeep⟩
  intro name l hl
  rw [Scanner.linesOf_foldl_step] at hl
  -- the line was there before, or this document brought it
  rcases List.mem_append.mp hl with hl | hl
  · obtain ⟨hfile, hwritten⟩ := h name l hl
    exact ⟨hkeep _ hfile, hwritten⟩
  · obtain ⟨v, hv, hl⟩ := List.mem_flatMap.mp hl
    obtain ⟨hfile, hwritten⟩ :=
      Scanner.written_of_taken (Scanner.at_startFile _ path follow) hread hend hv hl
    refine ⟨?_, hwritten⟩
    rw [hfile]
    exact hkeep path hpath

/-- So do any number of documents of the list. -/
theorem Sourced.foldl {paths : List Path} (h : scan.Sourced read)
    (hpaths : ∀ p ∈ paths, p ∈ scan.document.inputs)
    (hok : (paths.foldl (Scan.file read follow) scan).failure = none) :
    (paths.foldl (Scan.file read follow) scan).Sourced read := by
  induction paths generalizing scan with
  | nil => exact h
  | cons path paths ih =>
      obtain ⟨hnext, hkeep⟩ := h.file (hpaths path List.mem_cons_self) (failure_of_foldl hok)
      refine ih hnext ?_ hok
      intro p hp
      exact hkeep p (hpaths p (List.mem_cons_of_mem path hp))

/-- A run without a failure leaves every line of every chunk sourced. -/
theorem sourced_run {root : Path} {book : Bool} (h : (run read root book).failure = none) :
    (run read root book).Sourced read := by
  rw [run] at h ⊢
  -- The root is the first document on the list, and the chapters are the others.
  have hempty : Sourced read ⟨.start root.normalize, Document.empty.schedule root.normalize,
      [], none⟩ := fun name l hl => nomatch hl
  have hroot := hempty.file (List.mem_singleton.mpr rfl) (failure_of_foldl h)
  exact hroot.1.foldl (fun p hp => List.mem_of_mem_drop hp) h

end Scan

end Literate
