import Literate.Proofs.Build.Effects
import Literate.Proofs.Document.Discovery
import Literate.Proofs.Line.Reference

/-! # Warnings stop a run

    A scan warns of two things: a chunk without a name, and a chunk that a
    document leaves open.  Neither warning ever reaches a report.

    * What a scan that did not fail warns of is its chunks without a name, and
      nothing else (`Scan.warnings_run`): an open chunk ends the scan.
    * A reference is never to the empty name (`Line.name_of_reference?`), so a
      chunk without a name is a root, and it is not named like a file
      (`Lattice.unnamed_mem_oddRoots`): the check fails.
    * A document that was begun and leaves a chunk open has ended the scan
      (`Scan.Course.failure_of_breaks`). -/

namespace Literate

/-! ## Chunks without a name -/

/-- A reference is never to the empty name. -/
theorem Line.name_of_reference? {line : Text} {ref : Reference} (h : reference? line = some ref) :
    ref.name ≠ ⟨[]⟩ := by
  obtain ⟨before, after, behind, -, -, -, hname, -⟩ := reference?_eq_some_iff.mp h
  exact fun hempty => hname.ne_nil (congrArg ChunkName.text hempty)

namespace Lattice

/-- A chunk without a name is a root that is not named like a file. -/
theorem unnamed_mem_oddRoots {t : ChunkTable} (h : ⟨[]⟩ ∈ t.keys) :
    ⟨[]⟩ ∈ (ofTable t).oddRoots := by
  refine mem_oddRoots.mpr ⟨h, ?_, rfl⟩
  rintro a ⟨chunk, -, line, -, ref, href, hname⟩
  exact Line.name_of_reference? href hname

/-- The odd roots are among the problems, if there are any. -/
theorem nonFilenameRoots_mem_problems {l : Lattice} {t : ChunkTable} {name : ChunkName}
    (h : name ∈ l.oddRoots) : .nonFilenameRoots l.oddRoots ∈ l.problems t := by
  rw [problems_eq, if_neg (List.ne_nil_of_mem h)]
  simp

end Lattice

/-! ## What a scan warns of -/

namespace Document

/-- The warnings about the definitions of the chunk without a name. -/
def unnamedWarnings (definitions : List Definition) : List Warning :=
  definitions.map fun definition => ⟨definition.location, .unnamedChunk⟩

/-- A line adds a warning if it opens a chunk without a name. -/
theorem warnings_record (d : Document) (s : Scanner) (line : Text) :
    (d.record s line).warnings = d.warnings ++ unnamedWarnings (s.defined line ⟨[]⟩) := by
  rw [record_eq, Scanner.defined, Scanner.opened]
  simp only [recordChunk]
  cases hk : s.kind line with
  | chunkOpen name =>
      obtain ⟨text⟩ := name
      cases text with
      | nil =>
          rw [Scanner.next_location]
          rfl
      | cons c text =>
          simp [recordStart, unnamedWarnings]
  | _ => exact (List.append_nil _).symm

end Document

namespace Scan

variable {read : Path → Except Fault Text} {root : Path} {book : Bool}

/-- A scan that did not fail warns of its chunks without a name. -/
theorem warnings_run (hok : (run read root book).failure = none) :
    (run read root book).document.warnings = Document.unnamedWarnings
      ((run read root book).document.chunks.definitionsOf ⟨[]⟩) := by
  refine run_induct (P := fun d => d.warnings
    = Document.unnamedWarnings (d.chunks.definitionsOf ⟨[]⟩)) rfl ?_ hok
  intro d s line h
  rw [Document.warnings_record, Document.definitionsOf_record, h, Document.unnamedWarnings,
    Document.unnamedWarnings, Document.unnamedWarnings, List.map_append]

/-- A fence without a name, outside of blocks, defines the chunk without a name. -/
theorem unnamed_mem_keys (hok : (run read root book).failure = none) {f : Path}
    {content line : Text} {n : Nat} (hf : f ∈ (run read root book).document.inputs)
    (hread : read f = .ok content) (hline : content.lines[n]? = some line)
    (hout : Outside (content.lines.take n)) (hopen : Line.fenceOpen? line = some ⟨[]⟩) :
    ⟨[]⟩ ∈ (run read root book).document.chunks.keys := by
  obtain ⟨passage, hpassage, -, hblock⟩ := exists_passage hline hout
  obtain ⟨code, hcode, hname⟩ := hblock _ hopen
  refine (mem_keys_run hok).mpr (List.mem_map.mpr ⟨code, List.mem_flatMap.mpr ⟨f, hf, ?_⟩, hname⟩)
  rw [hread]
  exact List.mem_filterMap.mpr ⟨passage, hpassage, hcode⟩

/-- A document that was begun and breaks the scan has ended it. -/
theorem Course.failure_of_breaks {paths begun : List Path} {failure : Option Error} {f : Path}
    {e : Error} (h : Course read paths begun failure) (hf : f ∈ begun) (he : Breaks read f e) :
    failure = some e := by
  induction h with
  | done => cases hf
  | stops paths hbreaks =>
      rw [List.mem_singleton.mp hf] at he
      rw [hbreaks.unique he]
  | goes hno _ ih =>
      rcases List.mem_cons.mp hf with rfl | hf
      · exact absurd he (hno e)
      · exact ih hf

end Scan

/-! ## Whole runs -/

namespace Job

variable {read : Path → Except Fault Text} {settings : Settings} {root : Path}

theorem checked_of_failure {e : Error}
    (h : (Scan.run read root settings.book).failure = some e) :
    checked read settings root = .error e := by
  simp only [checked, h]

theorem checked_of_problem {problem : Problem}
    (hok : (Scan.run read root settings.book).failure = none)
    (h : problem ∈ (Scan.run read root settings.book).document.lattice.problems
      (Scan.run read root settings.book).document.chunks) :
    checked read settings root
      = .error (.invalid ((Scan.run read root settings.book).document.lattice.problems
          (Scan.run read root settings.book).document.chunks)) := by
  simp only [checked, hok]
  split
  · next hnone =>
      rw [hnone] at h
      cases h
  · rfl

end Job

/-- **No warning reaches a report.**  On any file system, whatever the settings and the stages, a
    run that succeeds reports no warnings.  For if its scan meets a fence that opens a chunk
    without a name, the check fails and lists the empty name among the roots that are not named
    like files; and if a document that it began ends inside a block, the run fails there. -/
theorem report_has_no_warnings {σ : Type} (fs : FileSystem σ) (render : Text → Text)
    (settings : Settings) (root : Path) (stages : Stages) (s : σ) :
    (∀ report, (run fs render settings root stages s).1.result = .ok report →
      report.warnings = []) ∧
    (∀ f content n line, (Scan.run (fs.read s) root settings.book).failure = none →
      f ∈ (Scan.run (fs.read s) root settings.book).document.inputs →
      fs.read s f = .ok content → content.lines[n]? = some line →
      Outside (content.lines.take n) → Line.fenceOpen? line = some ⟨[]⟩ →
      ∃ problems names,
        (run fs render settings root stages s).1.result = .error (.invalid problems) ∧
        .nonFilenameRoots names ∈ problems ∧ ⟨[]⟩ ∈ names) ∧
    (∀ f content name, f ∈ (Scan.run (fs.read s) root settings.book).started →
      fs.read s f = .ok content → Inside content.lines name →
      (run fs render settings root stages s).1.result
        = .error (.unclosedChunk ⟨f, content.lines.length⟩ name)) := by
  refine ⟨fun report hreport => ?_, ?_, ?_⟩
  · obtain ⟨d, hchecked, rfl⟩ := exists_checked_of_report hreport
    obtain ⟨hok, hscan, hproblems⟩ := Job.of_checked_eq_ok hchecked
    have hnone : d.chunks.definitionsOf ⟨[]⟩ = [] := by
      -- else the empty name would be among the problems
      refine Classical.byContradiction fun hsome => ?_
      have hodd := Lattice.unnamed_mem_oddRoots (ChunkTable.mem_keys_of_definition hsome)
      have hproblem := Lattice.nonFilenameRoots_mem_problems (t := d.chunks) hodd
      have hempty : (Lattice.ofTable d.chunks).problems d.chunks = [] := hproblems
      rw [hempty] at hproblem
      cases hproblem
    have hrun := Scan.warnings_run hok
    rw [hscan, hnone] at hrun
    exact hrun
  · intro f content n line hok hf hread hline hout hopen
    have hodd := Lattice.unnamed_mem_oddRoots
      (Scan.unnamed_mem_keys hok hf hread hline hout hopen)
    have hproblem := Lattice.nonFilenameRoots_mem_problems
      (t := (Scan.run (fs.read s) root settings.book).document.chunks) hodd
    have hchecked := Job.checked_of_problem hok hproblem
    exact ⟨_, _, (run_of_checked_error hchecked render stages).1, hproblem, hodd⟩
  · intro f content name hf hread hin
    have hfails := (Scan.course_run (fs.read s) root settings.book).failure_of_breaks hf
      (Breaks.unclosed hread hin)
    exact (run_of_checked_error (Job.checked_of_failure hfails) render stages).1

/-- A document with a chunk that has no name. -/
def namelessNote : Store :=
  .ofList [(⟨['b']⟩, "# B\n```\nx\n```\n".toList)]

/-- A book whose chapter ends inside a chunk. -/
def tornNote : Store :=
  .ofList [(⟨['b']⟩, "[c](c.md)\n".toList), (⟨"c.md".toList⟩, "c\n```y\nz\n".toList)]

/-- A document with one file in it. -/
def wholeNote : Store :=
  .ofList [(⟨['b']⟩, "```a.x\nx\n```\n".toList)]

/-- The first of the notes fails its check, the second its scan, and the third has its page
    without a warning. -/
theorem notes_without_warnings :
    (∃ problems names,
      (run (Store.fileSystem .none) id .default ⟨['b']⟩ .build namelessNote).1.result
        = .error (.invalid problems) ∧ .nonFilenameRoots names ∈ problems ∧ ⟨[]⟩ ∈ names) ∧
    (run (Store.fileSystem .none) id ⟨true, .none, none, []⟩ ⟨['b']⟩ .check tornNote).1.result
      = .error (.unclosedChunk ⟨⟨"c.md".toList⟩, 3⟩ ⟨['y']⟩) ∧
    ∃ report, (run (Store.fileSystem .none) id .default ⟨['b']⟩ .weaveOnly wholeNote).1.result
      = .ok report ∧ report.warnings = [] := by
  have hopens := (report_has_no_warnings (Store.fileSystem .none) id .default ⟨['b']⟩ .build
    namelessNote).2.1
  have hends := (report_has_no_warnings (Store.fileSystem .none) id ⟨true, .none, none, []⟩ ⟨['b']⟩
    .check tornNote).2.2
  have hreports := (report_has_no_warnings (Store.fileSystem .none) id .default ⟨['b']⟩ .weaveOnly
    wholeNote).1
  refine ⟨?_, ?_, ?_⟩
  · have hok : (Scan.run namelessNote.read ⟨['b']⟩ false).failure = none := by decide +kernel
    have hinput : ['b'] ∈ (Scan.run namelessNote.read ⟨['b']⟩ false).document.inputs.map
        Path.spelling := by decide +kernel
    obtain ⟨⟨_⟩, hf, rfl⟩ := List.mem_map.mp hinput
    have hbefore : Outside ["# B".toList] := Outside.nil.prose (by decide)
    exact hopens _ "# B\n```\nx\n```\n".toList 1 fence hok hf (by rfl) (by decide +kernel) hbefore
      (by decide)
  · have hstarted : "c.md".toList ∈ (Scan.run tornNote.read ⟨['b']⟩ true).started.map
        Path.spelling := by decide +kernel
    obtain ⟨⟨_⟩, hf, rfl⟩ := List.mem_map.mp hstarted
    have hinside : Inside ["c".toList, "```y".toList, "z".toList] ⟨['y']⟩ :=
      ⟨["c".toList], "```y".toList, ["z".toList], rfl, Outside.nil.prose (by decide), by decide,
        by decide⟩
    exact hends _ "c\n```y\nz\n".toList ⟨['y']⟩ hf (by rfl) hinside
  · cases hresult : (run (Store.fileSystem .none) id .default ⟨['b']⟩ .weaveOnly
      wholeNote).1.result with
    | ok report => exact ⟨report, rfl, hreports report hresult⟩
    | error e =>
        have hnone : (run (Store.fileSystem .none) id .default ⟨['b']⟩ .weaveOnly
            wholeNote).1.failure?.isSome = false := by decide +kernel
        rw [Outcome.failure?, hresult] at hnone
        cases hnone

end Literate
