import Literate.Proofs.Build.Rebuild
import Literate.Proofs.Document.Editing

/-! # Files and presentation

    Two runs that meet the same blocks, up to moves past blocks of other names,
    check the same and have the same roots, and each root expands to the same
    text.  That text is in the file where no two outputs of a run have one path
    (`contents_of_tangled`).

    Both conditions are needed (`presentation_matters`).  Two names can spell one
    path, and then the root that comes last has the file
    (`contents_of_last_root`).  And a book finds its chapters by links in its
    prose. -/

namespace Literate

/-! ## Files -/

/-- Where no two writes have one path, each of them is there behind them all. -/
theorem afterWrites_of_mem {files : Path → Option Text} {ws : List (Path × Text)}
    {w : Path × Text} (h : ws.Pairwise fun w w' => (w.1 == w'.1) = false) (hw : w ∈ ws) :
    afterWrites files ws w.1 = some w.2 := by
  obtain ⟨before, after, rfl⟩ := List.append_of_mem hw
  refine afterWrites_last BEq.rfl fun w' hw' => ?_
  rw [BEq.comm]
  exact (List.pairwise_cons.mp (List.pairwise_append.mp h).2.1).1 w' hw'

/-- The paths of the files and pages that a run has written. -/
def Report.targets (r : Report) : List Path :=
  r.tangled.map (fun name => ⟨name.text⟩) ++ r.woven

/-- No two outputs have one path. -/
def Report.Separate (r : Report) : Prop :=
  r.targets.Pairwise fun p q => (p == q) = false

instance (r : Report) : Decidable r.Separate :=
  inferInstanceAs (Decidable (r.targets.Pairwise _))

/-- The paths of a run's writes are those of its report. -/
theorem Job.map_fst_writes {read : Path → Except Fault Text} {settings : Settings} {root : Path}
    {d : Document} (hchecked : checked read settings root = .ok d) (render : Text → Text)
    (stages : Stages) :
    (writes read render settings root stages).map Prod.fst
      = (expected d (settings.outDirFor root) stages).targets := by
  obtain ⟨hok, hscan, -⟩ := of_checked_eq_ok hchecked
  have hdistinct := (Scan.passed_run hok).1
  rw [hscan] at hdistinct
  have hpages : pages (d.assignOutputs (settings.outDirFor root))
      = d.inputs.map fun f => .outputName f d.rootDir (settings.outDirFor root) := by
    rw [pages, ← List.filterMap_eq_map]
    exact List.filterMap_congr fun f hf => Document.outputFor?_assignOutputs hdistinct _ hf
  simp only [writes, hchecked, Report.targets, expected, hpages, List.map_append]
  congr 1
  · split
    · rw [List.map_map]
      rfl
    · rfl
  · split
    · rw [List.map_map]
      rfl
    · rfl

section Run

variable {σ : Type} {fs : FileSystem σ} {contents : σ → Path → Option Text}
  {refuses : Path → Bool} {limit : Option Nat}

/-- After a run that succeeds, its writes are there. -/
theorem contents_run (hfs : fs.Limited contents refuses limit) {render : Text → Text}
    {settings : Settings} {root : Path} {stages : Stages} {s : σ} {report : Report}
    (hok : (run fs render settings root stages s).1.result = .ok report) :
    contents (run fs render settings root stages s).2
      = afterWrites (contents s) (Job.writes (fs.read s) render settings root stages) := by
  obtain ⟨d, hchecked, -⟩ := exists_checked_of_report hok
  have hcarried := run_carried hfs hchecked render stages
  rw [Outcome.failure?, hok] at hcarried
  obtain ⟨-, -, hafter⟩ | ⟨fault, j, further, hfault, -⟩ := hcarried
  · exact hafter
  · cases hfault

/-- Where no two outputs have one path, a tangled file holds the expansion of its root. -/
theorem contents_of_tangled (hfs : fs.Limited contents refuses limit) {render : Text → Text}
    {settings : Settings} {root : Path} {stages : Stages} {s : σ} {report : Report}
    (hok : (run fs render settings root stages s).1.result = .ok report)
    (hseparate : report.Separate) {name : ChunkName} (hname : name ∈ report.tangled) :
    contents (run fs render settings root stages s).2 ⟨name.text⟩
      = some ((Scan.run (fs.read s) root settings.book).document.chunks.expansion
          settings.directive name).text := by
  obtain ⟨d, hchecked, rfl⟩ := exists_checked_of_report hok
  obtain ⟨-, hscan, -⟩ := Job.of_checked_eq_ok hchecked
  rw [Report.Separate, ← Job.map_fst_writes hchecked render, List.pairwise_map] at hseparate
  rw [contents_run hfs hok, hscan]
  refine afterWrites_of_mem (w := (⟨name.text⟩, _)) hseparate ?_
  have hname : name ∈ if stages.tangle then d.lattice.roots else [] := hname
  simp only [Job.writes, hchecked]
  refine List.mem_append_left _ ?_
  split at hname
  · next htangle =>
      rw [if_pos htangle]
      exact List.mem_map_of_mem hname
  · cases hname

/-- Where two roots spell one path, the last one has the file. -/
theorem contents_of_last_root (hfs : fs.Limited contents refuses limit) {render : Text → Text}
    {settings : Settings} {root : Path} {s : σ} {report : Report}
    (hok : (run fs render settings root .tangleOnly s).1.result = .ok report) {name : ChunkName}
    (hlast : report.tangled.getLast? = some name) {p : Path}
    (hp : ((⟨name.text⟩ : Path) == p) = true) :
    contents (run fs render settings root .tangleOnly s).2 p
      = some ((Scan.run (fs.read s) root settings.book).document.chunks.expansion
          settings.directive name).text := by
  obtain ⟨d, hchecked, rfl⟩ := exists_checked_of_report hok
  obtain ⟨-, hscan, -⟩ := Job.of_checked_eq_ok hchecked
  obtain ⟨before, hroots⟩ : ∃ before, d.lattice.roots = before ++ [name] :=
    List.getLast?_eq_some_iff.mp hlast
  rw [contents_run hfs hok, hscan]
  simp only [Job.writes, hchecked, Stages.tangleOnly, hroots, List.map_append, if_true,
    Bool.false_eq_true, if_false, List.append_nil]
  exact afterWrites_last (w := (⟨name.text⟩, _)) hp (List.forall_mem_nil _)

end Run

/-- **Tangling does not depend on presentation.**  Two tables with the same texts pass the check
    both or neither, have the same roots, and with no directive give the same text for every
    name.  Two scans of edited documents, in which a book links to the same chapters, succeed
    both or neither, and meet the same blocks up to moves past blocks of other names.
    And two runs that do so pass the check both or neither and have the same roots; if both
    succeed, and in neither of them two outputs have one path, they leave the same tangled
    files, each with the expansion of its root. -/
theorem tangling_ignores_presentation :
    (∀ t t' : ChunkTable, t.SameTexts t' →
      ((Lattice.ofTable t).problems t = [] ↔ (Lattice.ofTable t').problems t' = []) ∧
      (∀ name, name ∈ (Lattice.ofTable t).roots ↔ name ∈ (Lattice.ofTable t').roots) ∧
      ∀ name, tangleText t (Lattice.ofTable t) .none name
        = tangleText t' (Lattice.ofTable t') .none name) ∧
    (∀ (read read' : Path → Except Fault Text) (root : Path) (book : Bool),
      Scan.Edited read read' root book →
      ((Scan.run read root book).failure = none ↔ (Scan.run read' root book).failure = none) ∧
      Moves (Scan.blocksOf read (Scan.run read root book).document.inputs)
        (Scan.blocksOf read' (Scan.run read' root book).document.inputs)) ∧
    ∀ (σ : Type) (fs : FileSystem σ) (contents : σ → Path → Option Text)
      (refuses : Path → Bool) (limit : Option Nat), fs.Limited contents refuses limit →
      ∀ (render : Text → Text) (settings : Settings) (root : Path) (stages : Stages) (s s' : σ)
        (scan scan' : Scan), settings.directive = .none →
        Scan.run (fs.read s) root settings.book = scan → scan.failure = none →
        Scan.run (fs.read s') root settings.book = scan' → scan'.failure = none →
        Moves (Scan.blocksOf (fs.read s) scan.document.inputs)
          (Scan.blocksOf (fs.read s') scan'.document.inputs) →
        (scan.document.lattice.problems scan.document.chunks = [] ↔
          scan'.document.lattice.problems scan'.document.chunks = []) ∧
        (∀ name, name ∈ scan.document.lattice.roots ↔ name ∈ scan'.document.lattice.roots) ∧
        ∀ report report' : Report,
          (run fs render settings root stages s).1.result = .ok report → report.Separate →
          (run fs render settings root stages s').1.result = .ok report' → report'.Separate →
          ∀ name, (name ∈ report.tangled ↔ name ∈ report'.tangled) ∧
            (name ∈ report.tangled → ∃ text,
              text = (scan.document.chunks.expansion .none name).text ∧
              contents (run fs render settings root stages s).2 ⟨name.text⟩ = some text ∧
              contents (run fs render settings root stages s').2 ⟨name.text⟩ = some text) := by
  refine ⟨fun t t' h => ?_, fun read read' root book h => h.run, ?_⟩
  · exact ⟨h.problems_eq_nil_iff, fun name => h.mem_roots_iff, h.tangleText_eq⟩
  · rintro σ fs contents refuses limit hfs render settings root stages s s' scan scan' hdirective
      rfl hok rfl hok' hmoves
    have hsame := Scan.sameTexts_of_moves hok hok' hmoves
    refine ⟨hsame.problems_eq_nil_iff, fun name => hsame.mem_roots_iff, ?_⟩
    intro report report' hreport hseparate hreport' hseparate' name
    have htangled : name ∈ report.tangled ↔ name ∈ report'.tangled := by
      obtain ⟨d, hchecked, rfl⟩ := exists_checked_of_report hreport
      obtain ⟨d', hchecked', rfl⟩ := exists_checked_of_report hreport'
      obtain ⟨-, rfl, -⟩ := Job.of_checked_eq_ok hchecked
      obtain ⟨-, rfl, -⟩ := Job.of_checked_eq_ok hchecked'
      simp only [Job.expected]
      split
      · exact hsame.mem_roots_iff
      · exact Iff.rfl
    refine ⟨htangled, fun hname => ⟨_, rfl, ?_, ?_⟩⟩
    · rw [contents_of_tangled hfs hreport hseparate hname, hdirective]
    · rw [contents_of_tangled hfs hreport' hseparate' (htangled.mp hname), hdirective, Pieces.text,
        Pieces.text, (hsame.expansion_eq name).1]

/-- A document that passes the check has its report. -/
theorem Store.exists_report (store : Store) (settings : Settings) (root : Path) (stages : Stages)
    (h : (Job.checked store.read settings root).toOption.isSome = true) :
    ∃ report, (run (fileSystem .none) id settings root stages store).1.result = .ok report ∧
      report = Job.expected (Scan.run store.read root settings.book).document
        (settings.outDirFor root) stages := by
  have hresult : _ = (Job.checked store.read settings root).map _ :=
    run_result neverFails id settings root stages store
  cases hchecked : Job.checked store.read settings root with
  | error e =>
      rw [hchecked] at h
      cases h
  | ok d =>
      rw [hchecked] at hresult
      obtain ⟨-, rfl, -⟩ := Job.of_checked_eq_ok hchecked
      exact ⟨_, hresult, rfl⟩

/-- A document with a heading and two blocks. -/
def desk : Store :=
  .ofList [(⟨['b']⟩, "# T\n```a.x\n1\n```\n```c.x\n2\n```\n".toList)]

/-- The document with another heading, and with its blocks the other way round. -/
def tidyDesk : Store :=
  .ofList [(⟨['b']⟩, "## U\n\n```c.x\n2\n```\n```a.x\n1\n```\n".toList)]

theorem edited_desk : Scan.Edited desk.read tidyDesk.read ⟨['b']⟩ false := by
  refine ⟨fun f hf => ?_, nofun⟩
  obtain rfl : f = ⟨['b']⟩ := List.mem_singleton.mp hf
  have ha : Whole ⟨"a.x".toList⟩ ["```a.x".toList, ['1'], fence] :=
    ⟨_, [['1']], rfl, by decide +kernel, by decide⟩
  have hc : Whole ⟨"c.x".toList⟩ ["```c.x".toList, ['2'], fence] :=
    ⟨_, [['2']], rfl, by decide +kernel, by decide⟩
  have hheading : Edit ["# T".toList, "```a.x".toList, ['1'], fence, "```c.x".toList, ['2'], fence]
      ["## U".toList, [], "```a.x".toList, ['1'], fence, "```c.x".toList, ['2'], fence] :=
    Edit.prose ["# T".toList] ["## U".toList, []] _ Outside.nil (by decide) (by decide)
  have hblocks : Edit
      ["## U".toList, [], "```a.x".toList, ['1'], fence, "```c.x".toList, ['2'], fence]
      ["## U".toList, [], "```c.x".toList, ['2'], fence, "```a.x".toList, ['1'], fence] :=
    Edit.move [] ((Outside.nil.prose (by decide)).prose (by decide)) ha hc (by decide)
  exact ⟨_, _, rfl, rfl, (Relation.ReflTransGen.single hheading).tail hblocks⟩

/-- The desk and the tidy desk are tangled in another order, to the same files. -/
theorem desk_tidied :
    ∃ (scan scan' : Scan) (report report' : Report) (after after' : Store),
      Scan.run desk.read ⟨['b']⟩ false = scan ∧ scan.failure = none ∧
      Scan.run tidyDesk.read ⟨['b']⟩ false = scan' ∧ scan'.failure = none ∧
      scan.document.chunks.SameTexts scan'.document.chunks ∧
      (∀ name, tangleText scan.document.chunks scan.document.lattice .none name
        = tangleText scan'.document.chunks scan'.document.lattice .none name) ∧
      (run (Store.fileSystem .none) id .default ⟨['b']⟩ .build desk).1.result = .ok report ∧
      (run (Store.fileSystem .none) id .default ⟨['b']⟩ .build desk).2 = after ∧
      (run (Store.fileSystem .none) id .default ⟨['b']⟩ .build tidyDesk).1.result = .ok report' ∧
      (run (Store.fileSystem .none) id .default ⟨['b']⟩ .build tidyDesk).2 = after' ∧
      report.Separate ∧ report'.Separate ∧ report.tangled = report'.tangled.reverse ∧
      ∀ name ∈ report.tangled, ∃ text,
        after.contents? ⟨name.text⟩ = some text ∧ after'.contents? ⟨name.text⟩ = some text := by
  obtain ⟨htables, hscans, hfiles⟩ := tangling_ignores_presentation
  have hok : (Scan.run desk.read ⟨['b']⟩ false).failure = none := by decide +kernel
  obtain ⟨hends, hmoves⟩ := hscans _ _ _ _ edited_desk
  have hok' := hends.mp hok
  have hsame := Scan.sameTexts_of_moves hok hok' hmoves
  obtain ⟨report, hreport, heq⟩ :=
    Store.exists_report desk .default ⟨['b']⟩ .build (by decide +kernel)
  obtain ⟨report', hreport', heq'⟩ :=
    Store.exists_report tidyDesk .default ⟨['b']⟩ .build (by decide +kernel)
  have hseparate : report.Separate := by rw [heq]; decide +kernel
  have hseparate' : report'.Separate := by rw [heq']; decide +kernel
  have htangled : report.tangled = report'.tangled.reverse := by rw [heq, heq']; decide +kernel
  obtain ⟨-, -, hfiles⟩ := hfiles Store _ _ _ _ (Store.limited .none) id .default ⟨['b']⟩ .build
    desk tidyDesk _ _ rfl rfl hok rfl hok' hmoves
  refine ⟨_, _, report, report', _, _, rfl, hok, rfl, hok', hsame, (htables _ _ hsame).2.2, hreport,
    rfl, hreport', rfl, hseparate, hseparate', htangled, fun name hname => ?_⟩
  obtain ⟨text, -, hboth⟩ :=
    (hfiles report report' hreport hseparate hreport' hseparate' name).2 hname
  exact ⟨text, hboth⟩

/-! ## What presentation can change -/

/-- Whatever edits are made in the documents that a run reads, it leaves the same tangled files. -/
def EditsKeepFiles (settings : Settings) : Prop :=
  ∀ (root : Path) (store store' : Store) (report report' : Report),
    (run (Store.fileSystem .none) id settings root .tangleOnly store).1.result = .ok report →
    (run (Store.fileSystem .none) id settings root .tangleOnly store').1.result = .ok report' →
    (∀ f ∈ report.inputs, EditedAt store.read store'.read f) →
    ∀ name ∈ report.tangled,
      (run (Store.fileSystem .none) id settings root .tangleOnly store).2.contents? ⟨name.text⟩
        = (run (Store.fileSystem .none) id settings root .tangleOnly store').2.contents?
            ⟨name.text⟩

/-- What a run leaves in the file of its last root, if that has no references. -/
theorem Store.exists_tangled (store : Store) (settings : Settings) (root : Path)
    (name : ChunkName) (texts : List Text) (p : Path) (hdirective : settings.directive = .none)
    (h : (Job.checked store.read settings root).toOption.isSome = true)
    (hlast : (Scan.run store.read root settings.book).document.lattice.roots.getLast? = some name)
    (htexts : ((Scan.run store.read root settings.book).document.chunks.get? name).map
      (fun c => c.lines.map ChunkLine.text) = some texts)
    (hcode : ∀ text ∈ texts, Line.reference? text = none)
    (hp : ((⟨name.text⟩ : Path) == p) = true) :
    ∃ report,
      (run (fileSystem .none) id settings root .tangleOnly store).1.result = .ok report ∧
      report.inputs = (Scan.run store.read root settings.book).document.inputs ∧
      name ∈ report.tangled ∧
      (run (fileSystem .none) id settings root .tangleOnly store).2.contents? p
        = some (Text.unlines texts) := by
  obtain ⟨report, hresult, rfl⟩ := exists_report store settings root .tangleOnly h
  refine ⟨_, hresult, rfl, List.mem_of_getLast? hlast, ?_⟩
  rw [contents_of_last_root (limited .none) hresult hlast hp, hdirective,
    ← ChunkTable.text_expansion_of_code htexts hcode]
  rfl

/-- Two blocks whose names spell one path. -/
def namesakes : Store :=
  .ofList [(⟨['b']⟩, "```a//b.x\n1\n```\n```a/b.x\n2\n```\n".toList)]

/-- The first of the two blocks is moved past the second. -/
def movedNamesakes : Store :=
  .ofList [(⟨['b']⟩, "```a/b.x\n2\n```\n```a//b.x\n1\n```\n".toList)]

/-- The cabinet with other prose, in which it does not link to its chapter. -/
def unboundCabinet : Store :=
  .ofList [(⟨['b']⟩, "c\n```a.x\n1\n```\n".toList), (⟨"c.md".toList⟩, "```a.x\n2\n```\n".toList)]

theorem editedAt_namesakes {f : Path} (hf : f ∈ Scan.found namesakes.read ⟨['b']⟩ false) :
    EditedAt namesakes.read movedNamesakes.read f := by
  obtain rfl : f = ⟨['b']⟩ := List.mem_singleton.mp hf
  have hfirst : Whole ⟨"a//b.x".toList⟩ ["```a//b.x".toList, ['1'], fence] :=
    ⟨_, [['1']], rfl, by decide +kernel, by decide⟩
  have hsecond : Whole ⟨"a/b.x".toList⟩ ["```a/b.x".toList, ['2'], fence] :=
    ⟨_, [['2']], rfl, by decide +kernel, by decide⟩
  have hmove : Edit ["```a//b.x".toList, ['1'], fence, "```a/b.x".toList, ['2'], fence]
      ["```a/b.x".toList, ['2'], fence, "```a//b.x".toList, ['1'], fence] :=
    Edit.move [] Outside.nil hfirst hsecond (by decide)
  exact ⟨_, _, rfl, rfl, Relation.ReflTransGen.single hmove⟩

theorem editedAt_cabinet {f : Path} (hf : f ∈ Scan.found cabinet.read ⟨['b']⟩ true) :
    EditedAt cabinet.read unboundCabinet.read f := by
  have hfound : (Scan.found cabinet.read ⟨['b']⟩ true).map Path.spelling
      = [['b'], "c.md".toList] := by decide +kernel
  have hspelling : f.spelling ∈ [['b'], "c.md".toList] := hfound ▸ List.mem_map_of_mem hf
  obtain ⟨spelling⟩ := f
  rcases List.mem_pair.mp hspelling with rfl | rfl
  · have hprose : Edit ["[c](c.md)".toList, "```a.x".toList, ['1'], fence]
        [['c'], "```a.x".toList, ['1'], fence] :=
      Edit.prose ["[c](c.md)".toList] [['c']] _ Outside.nil (by decide) (by decide)
    exact ⟨_, _, rfl, rfl, Relation.ReflTransGen.single hprose⟩
  · exact ⟨_, _, rfl, rfl, Relation.ReflTransGen.refl⟩

/-- The file of the namesakes is that of the block that comes last, and the file of the cabinet
    takes in the chapter only where the prose links to it. -/
theorem presentation_matters : ¬ EditsKeepFiles .default ∧ ¬ EditsKeepFiles cabinetSettings := by
  constructor
  · intro hall
    obtain ⟨report, hreport, hinputs, hname, hcontents⟩ :=
      Store.exists_tangled namesakes .default ⟨['b']⟩ ⟨"a/b.x".toList⟩ [['2']] ⟨"a/b.x".toList⟩ rfl
        (by decide +kernel) (by decide +kernel) (by decide +kernel) (by decide) (by decide)
    obtain ⟨report', hreport', -, -, hcontents'⟩ :=
      Store.exists_tangled movedNamesakes .default ⟨['b']⟩ ⟨"a//b.x".toList⟩ [['1']]
        ⟨"a/b.x".toList⟩ rfl (by decide +kernel) (by decide +kernel) (by decide +kernel) (by decide)
        (by decide +kernel)
    rw [Scan.inputs_eq_found] at hinputs
    have hsame := hall ⟨['b']⟩ namesakes movedNamesakes report report' hreport hreport'
      (fun f hf => editedAt_namesakes (hinputs ▸ hf)) _ hname
    rw [hcontents, hcontents'] at hsame
    cases hsame
  · intro hall
    obtain ⟨report, hreport, hinputs, hname, hcontents⟩ :=
      Store.exists_tangled cabinet cabinetSettings ⟨['b']⟩ ⟨"a.x".toList⟩ [['1'], ['2']]
        ⟨"a.x".toList⟩ rfl (by decide +kernel) (by decide +kernel) (by decide +kernel) (by decide)
        (by decide)
    obtain ⟨report', hreport', -, -, hcontents'⟩ :=
      Store.exists_tangled unboundCabinet cabinetSettings ⟨['b']⟩ ⟨"a.x".toList⟩ [['1']]
        ⟨"a.x".toList⟩ rfl (by decide +kernel) (by decide +kernel) (by decide +kernel) (by decide)
        (by decide)
    rw [Scan.inputs_eq_found] at hinputs
    have hsame := hall ⟨['b']⟩ cabinet unboundCabinet report report' hreport hreport'
      (fun f hf => editedAt_cabinet (hinputs ▸ hf)) _ hname
    rw [hcontents, hcontents'] at hsame
    cases hsame

end Literate
