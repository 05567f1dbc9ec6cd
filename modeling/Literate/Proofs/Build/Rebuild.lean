import Literate.Proofs.Build.Effects

/-! # Building again

    A run reads the files that it also writes.  A chunk may have the name of a
    document, and a page may be written where a document is, so a run can change
    what the next one reads (`rebuild_differs`).

    If the documents that were read are left as they were, the next run does the
    same again.

    * A scan asks for its inputs and for nothing else, so it is the same scan
      wherever these are the same (`Scan.run_congr`).
    * The same writes once more leave every file as it is
      (`afterWrites_afterWrites`). -/

namespace Literate

namespace Scan

variable {read read' : Path → Except Fault Text} {root : Path} {book : Bool}

/-- The root is an input, and every other input is found before the first chapter is read. -/
theorem inputs_run (hok : (run read root book).failure = none) :
    (run read root book).document.inputs
      = (file read book ⟨.start root.normalize, Document.empty.schedule root.normalize, [], none⟩
          root.normalize).document.inputs ∧
    root.normalize ∈ (run read root book).document.inputs := by
  rw [run] at hok ⊢
  have hempty : Sourced read ⟨.start root.normalize, Document.empty.schedule root.normalize,
      [], none⟩ := by
    intro name l hl
    cases hl
  have hroot := (hempty.file (List.mem_singleton.mpr rfl) (failure_of_foldl hok)).2
    root.normalize (List.mem_singleton.mpr rfl)
  have hinputs := inputs_foldl hok
  refine ⟨hinputs, ?_⟩
  rw [hinputs]
  exact hroot

theorem file_congr {path : Path} (h : read' path = read path) (follow : Bool) (scan : Scan) :
    file read' follow scan path = file read follow scan path := by
  rw [file, file, h]

/-- Where the inputs are the same, so is the scan. -/
theorem run_congr (hok : (run read root book).failure = none)
    (h : ∀ f ∈ (run read root book).document.inputs, read' f = read f) :
    run read' root book = run read root book := by
  obtain ⟨hinputs, hroot⟩ := inputs_run hok
  rw [run, run]
  rw [file_congr (h _ hroot)]
  refine List.foldl_ext _ _ _ fun scan f hf => file_congr (h f ?_) false scan
  rw [hinputs]
  exact List.mem_of_mem_drop hf

end Scan

theorem Store.read_congr {s s' : Store} {f : Path} (h : s'.contents? f = s.contents? f) :
    s'.read f = s.read f := by
  rw [read, read, h]

theorem Job.checked_congr {read read' : Path → Except Fault Text} {settings : Settings}
    {root : Path} {d : Document} (hchecked : checked read settings root = .ok d)
    (h : ∀ f ∈ d.inputs, read' f = read f) : checked read' settings root = .ok d := by
  obtain ⟨hok, hscan, -⟩ := of_checked_eq_ok hchecked
  rw [← hscan] at h
  rw [← hchecked, checked, checked, Scan.run_congr hok h]

/-- No file and no page that was written has the path of a document that was read. -/
def Report.Apart (r : Report) : Prop :=
  ∀ f ∈ r.inputs, (∀ name ∈ r.tangled, ((⟨name.text⟩ : Path) == f) = false) ∧
    ∀ page ∈ r.woven, (page == f) = false

instance (r : Report) : Decidable r.Apart :=
  inferInstanceAs (Decidable (∀ f ∈ r.inputs, _ ∧ _))

/-- What a run writes is what its report names: the files of roots and the pages. -/
theorem Job.target_of_mem_writes {read : Path → Except Fault Text} {settings : Settings}
    {root : Path} {d : Document} (hchecked : checked read settings root = .ok d)
    {render : Text → Text} {stages : Stages} {w : Path × Text}
    (hw : w ∈ writes read render settings root stages) :
    (∃ name ∈ (expected d (settings.outDirFor root) stages).tangled, w.1 = ⟨name.text⟩) ∨
      w.1 ∈ (expected d (settings.outDirFor root) stages).woven := by
  obtain ⟨hok, hscan, -⟩ := of_checked_eq_ok hchecked
  have hdistinct := (Scan.passed_run hok).1
  rw [hscan] at hdistinct
  simp only [writes, hchecked] at hw
  rcases List.mem_append.mp hw with hw | hw
  · left
    cases htangle : stages.tangle with
    | false =>
        rw [htangle] at hw
        cases hw
    | true =>
        rw [htangle] at hw
        obtain ⟨name, hname, rfl⟩ := List.mem_map.mp hw
        refine ⟨name, ?_, rfl⟩
        show name ∈ if stages.tangle then d.lattice.roots else []
        rw [htangle]
        exact hname
  · right
    cases hweave : stages.weave with
    | false =>
        rw [hweave] at hw
        cases hw
    | true =>
        rw [hweave] at hw
        obtain ⟨f, hf, rfl⟩ := List.mem_map.mp hw
        show _ ∈ if stages.weave then pages (d.assignOutputs (settings.outDirFor root)) else []
        rw [hweave]
        exact List.mem_filterMap.mpr ⟨f, hf, Document.outputFor?_assignOutputs hdistinct _ hf⟩

/-- A run that succeeds has made the report of what it checked, and all of its writes. -/
theorem exists_checked_of_ok {render : Text → Text} {settings : Settings} {root : Path}
    {stages : Stages} {store : Store} {report : Report}
    (hok : (run (Store.fileSystem .none) render settings root stages store).1.result
      = .ok report) :
    ∃ d, Job.checked store.read settings root = .ok d ∧
      Job.expected d (settings.outDirFor root) stages = report ∧
      (run (Store.fileSystem .none) render settings root stages store).2.contents?
        = afterWrites store.contents? (Job.writes store.read render settings root stages) := by
  have hresult : _ = (Job.checked store.read settings root).map _ :=
    run_result Store.neverFails render settings root stages store
  rw [hok] at hresult
  cases hchecked : Job.checked store.read settings root with
  | error e =>
      rw [hchecked] at hresult
      cases hresult
  | ok d =>
      rw [hchecked] at hresult
      have hcarried := run_carried (Store.limited .none) hchecked render stages
      rw [Outcome.failure?, hok] at hcarried
      obtain ⟨-, -, hafter⟩ | ⟨fault, j, further, hfault, -⟩ := hcarried
      · exact ⟨d, rfl, (Except.ok.inj hresult).symm, hafter⟩
      · cases hfault

/-- **Building again changes nothing, if the documents are left alone.**  After a run that
    succeeds on files in memory, the same run on the files that it left succeeds with
    the same report and leaves every file as it is, provided that each document that was
    read still has its text.  That is so at least where no file and no page that was
    written has the path of such a document. -/
theorem rebuild_changes_nothing (render : Text → Text) (settings : Settings) (root : Path)
    (stages : Stages) (store : Store) {report : Report} {after : Store}
    (hok : (run (Store.fileSystem .none) render settings root stages store).1.result
      = .ok report)
    (hafter : (run (Store.fileSystem .none) render settings root stages store).2 = after) :
    ((∀ f ∈ report.inputs, after.contents? f = store.contents? f) →
      (run (Store.fileSystem .none) render settings root stages after).1.result = .ok report ∧
      ∀ p, (run (Store.fileSystem .none) render settings root stages after).2.contents? p
        = after.contents? p) ∧
    (report.Apart → ∀ f ∈ report.inputs, after.contents? f = store.contents? f) := by
  subst hafter
  obtain ⟨d, hchecked, rfl, hcontents⟩ := exists_checked_of_ok hok
  constructor
  · intro hkept
    have hagain := Job.checked_congr hchecked fun f hf => Store.read_congr (hkept f hf)
    generalize (run (Store.fileSystem .none) render settings root stages store).2 = after
      at hcontents hagain ⊢
    have hresult : (run (Store.fileSystem .none) render settings root stages after).1.result
        = .ok (Job.expected d (settings.outDirFor root) stages) := by
      rw [run_result Store.neverFails]
      show (Job.checked after.read settings root).map _ = _
      rw [hagain]
      rfl
    refine ⟨hresult, fun p => ?_⟩
    -- the second run has the plan of the first
    have hplan : Job.writes after.read render settings root stages
        = Job.writes store.read render settings root stages := by
      simp only [Job.writes, hagain, hchecked]
    obtain ⟨-, -, -, hcontents'⟩ := exists_checked_of_ok hresult
    rw [hcontents', hplan, hcontents, afterWrites_afterWrites]
  · intro hapart f hf
    rw [hcontents]
    refine afterWrites_other fun w hw => ?_
    rcases Job.target_of_mem_writes hchecked hw with ⟨name, hname, hw⟩ | hpage
    · rw [hw]
      exact (hapart f hf).1 name hname
    · exact (hapart f hf).2 w.1 hpage

/-- A book of two documents that write a file together. -/
def cabinet : Store :=
  .ofList [(⟨['b']⟩, "[c](c.md)\n```a.x\n1\n```\n".toList),
    (⟨"c.md".toList⟩, "```a.x\n2\n```\n".toList)]

/-- What the cabinet is built with. -/
def cabinetSettings : Settings :=
  ⟨true, .none, none, []⟩

/-- The file and the pages of the cabinet lie apart from its documents, so building it again has
    no effect. -/
theorem cabinet_rebuilt :
    ∃ (report : Report) (after : Store),
      (run (Store.fileSystem .none) id cabinetSettings ⟨['b']⟩ .build cabinet).1.result
        = .ok report ∧
      (run (Store.fileSystem .none) id cabinetSettings ⟨['b']⟩ .build cabinet).2 = after ∧
      report.tangled.length = 1 ∧ report.woven.length = 2 ∧ report.Apart ∧
      (∀ f ∈ report.inputs, after.contents? f = cabinet.contents? f) ∧
      (run (Store.fileSystem .none) id cabinetSettings ⟨['b']⟩ .build after).1.result
        = .ok report ∧
      ∀ p, (run (Store.fileSystem .none) id cabinetSettings ⟨['b']⟩ .build after).2.contents? p
        = after.contents? p := by
  have hfacts : ((Job.checked cabinet.read cabinetSettings ⟨['b']⟩).toOption.map fun d =>
      let report := Job.expected d (cabinetSettings.outDirFor ⟨['b']⟩) .build
      (report.tangled.length, report.woven.length, decide report.Apart)) = some (1, 2, true) := by
    decide +kernel
  have hresult : _ = (Job.checked cabinet.read cabinetSettings ⟨['b']⟩).map _ :=
    run_result Store.neverFails id cabinetSettings ⟨['b']⟩ .build cabinet
  cases hchecked : Job.checked cabinet.read cabinetSettings ⟨['b']⟩ with
  | error e =>
      rw [hchecked] at hfacts
      cases hfacts
  | ok d =>
      rw [hchecked] at hfacts hresult
      obtain ⟨htangled, hrest⟩ := Prod.mk.inj (Option.some.inj hfacts)
      obtain ⟨hwoven, hapart⟩ := Prod.mk.inj hrest
      have hapart := of_decide_eq_true hapart
      obtain ⟨hagain, hkept⟩ := rebuild_changes_nothing id cabinetSettings ⟨['b']⟩ .build cabinet
        hresult rfl
      exact ⟨_, _, hresult, rfl, htangled, hwoven, hapart, hkept hapart, hagain (hkept hapart)⟩

/-- A document whose page has its own path. -/
def palimpsest : Store :=
  .ofList [(⟨"b.html".toList⟩, "hi\n".toList)]

/-- The document is written over by its page, which gets a page of its own the next time. -/
theorem rebuild_differs :
    ¬ ∀ (render : Text → Text) (settings : Settings) (root : Path) (stages : Stages)
      (store : Store) (report : Report) (after : Store),
      (run (Store.fileSystem .none) render settings root stages store).1.result = .ok report →
      (run (Store.fileSystem .none) render settings root stages store).2 = after →
      (run (Store.fileSystem .none) render settings root stages after).1.result = .ok report ∧
      ∀ p, (run (Store.fileSystem .none) render settings root stages after).2.contents? p
        = after.contents? p := by
  intro hall
  have hfailure : (run (Store.fileSystem .none) id .default ⟨"b.html".toList⟩ .weaveOnly
      palimpsest).1.failure?.isNone = true := by decide +kernel
  have hdiffers : (run (Store.fileSystem .none) id .default ⟨"b.html".toList⟩ .weaveOnly
      (run (Store.fileSystem .none) id .default ⟨"b.html".toList⟩ .weaveOnly
        palimpsest).2).2.contents? ⟨"b.html".toList⟩
      ≠ (run (Store.fileSystem .none) id .default ⟨"b.html".toList⟩ .weaveOnly
        palimpsest).2.contents? ⟨"b.html".toList⟩ := by decide +kernel
  cases hok : (run (Store.fileSystem .none) id .default ⟨"b.html".toList⟩ .weaveOnly
      palimpsest).1.result with
  | error e =>
      rw [Outcome.failure?, hok] at hfailure
      cases hfailure
  | ok report =>
      obtain ⟨-, hsame⟩ := hall id .default ⟨"b.html".toList⟩ .weaveOnly palimpsest report _ hok rfl
      exact hdiffers (hsame ⟨"b.html".toList⟩)

end Literate
