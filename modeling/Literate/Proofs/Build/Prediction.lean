import Literate.Build.Run
import Literate.Proofs.Build.Writes
import Literate.Proofs.Expansion.Derivation
import Literate.Proofs.Page.Anchor

/-! # Checking predicts building

    What a run is asked to write has no part in its scan and its check.  So
    whether a run fails in one of the two, and how, does not depend on it
    (`Job.prepare_result`).

    Behind the check nothing is left that can fail but the file system.  The
    roots of a lattice that passed have an expansion without a cycle, and each
    document has a page, so both plans are sound (`Job.sound_tanglePlan`,
    `Job.sound_weavePlan`).  Hence on a file system that refuses nothing, what was
    checked decides how a run ends (`run_result`). -/

namespace Literate

open Scan (pamphlet boundPamphlet)

namespace Job

/-! ## Plans of a checked document set -/

/-- A root that passed the check is expanded to its end. -/
theorem sound_tanglePlan {t : ChunkTable} (h : (Lattice.ofTable t).problems t = [])
    (directive : Directive) :
    ∀ step ∈ tanglePlan t (Lattice.ofTable t) directive, step.Sound := by
  obtain ⟨-, hacyclic, hclosed⟩ := Lattice.problems_eq_nil_iff.mp h
  intro step hstep
  obtain ⟨root, hroot, rfl⟩ := List.mem_map.mp hstep
  obtain ⟨es, hes⟩ := ChunkTable.exists_trace hacyclic hclosed
    (Lattice.mem_roots_ofTable.mp hroot).1
  show (((t.expansion directive root).andThen _).value : Option Error) = none
  rw [Pieces.value_andThen, (hes.run hacyclic directive).2]
  rfl

/-- Where each document has a page, all pages can be made. -/
theorem sound_weavePlan {d : Document} (h : ∀ f ∈ d.inputs, (d.outputFor? f).isSome = true)
    (render : Text → Text) (lattice : Lattice) (marker : Text) :
    ∀ step ∈ weavePlan render d lattice marker, step.Sound := by
  intro step hstep
  obtain ⟨f, hf, rfl⟩ := List.mem_map.mp hstep
  obtain ⟨page, hpage⟩ := Option.isSome_iff_exists.mp (h f hf)
  rw [weaveInput, hpage]
  rfl

theorem map_some_pages {d : Document} (h : ∀ f ∈ d.inputs, (d.outputFor? f).isSome = true) :
    (pages d).map some = d.inputs.map d.outputFor? := by
  rw [pages]
  generalize d.inputs = inputs at h
  induction inputs with
  | nil => rfl
  | cons f inputs ih =>
      obtain ⟨page, hpage⟩ := Option.isSome_iff_exists.mp (h f List.mem_cons_self)
      rw [List.filterMap_cons, List.map_cons, hpage, List.map_cons,
        ih fun g hg => h g (List.mem_cons_of_mem _ hg)]

/-! ## Preparing -/

/-- What scanning and checking come to, whatever is to be written. -/
def checked (read : Path → Except Fault Text) (settings : Settings) (root : Path) :
    Except Error Document :=
  let scan := Scan.run read root settings.book
  match scan.failure with
  | some e => .error e
  | none =>
    match scan.document.lattice.problems scan.document.chunks with
    | [] => .ok scan.document
    | problems => .error (.invalid problems)

/-- What passed the check came out of a scan that did not fail. -/
theorem of_checked_eq_ok {read : Path → Except Fault Text} {settings : Settings} {root : Path}
    {d : Document} (h : checked read settings root = .ok d) :
    (Scan.run read root settings.book).failure = none ∧
      (Scan.run read root settings.book).document = d ∧ d.lattice.problems d.chunks = [] := by
  rw [checked] at h
  generalize Scan.run read root settings.book = scan at h ⊢
  cases hfailure : scan.failure with
  | some e =>
      simp only [hfailure] at h
      cases h
  | none =>
      cases hproblems : scan.document.lattice.problems scan.document.chunks with
      | nil =>
          simp only [hfailure, hproblems, Except.ok.injEq] at h
          subst h
          exact ⟨rfl, rfl, hproblems⟩
      | cons problem problems =>
          simp only [hfailure, hproblems] at h
          cases h

/-- The stages only decide whether the pages of what was checked are named. -/
theorem prepare_result (read : Path → Except Fault Text) (settings : Settings) (root : Path)
    (stages : Stages) :
    (prepare read settings root stages).result
      = (checked read settings root).map fun d =>
          ⟨if stages.weave then d.assignOutputs (settings.outDirFor root) else d, d.lattice⟩ := by
  rw [prepare, checked]
  generalize Scan.run read root settings.book = scan
  cases hfailure : scan.failure with
  | some e => rfl
  | none =>
      cases stages.weave with
      | false =>
          show (match scan.document.lattice.problems scan.document.chunks with
            | [] => _
            | problems => _ : Preparation).result = _
          cases scan.document.lattice.problems scan.document.chunks <;> rfl
      | true =>
          show (match scan.document.lattice.problems scan.document.chunks with
            | [] => _
            | problems => _ : Preparation).result = _
          cases scan.document.lattice.problems scan.document.chunks <;> rfl

/-! ## Writing -/

variable {σ : Type} {fs : FileSystem σ}

theorem stage_of_sound (hfs : fs.NeverFails) {wanted : Bool} {steps : List Step}
    (h : wanted = true → ∀ step ∈ steps, step.Sound) (summary : String) (s : σ) :
    (stage fs.put wanted steps summary s).1.2 = none := by
  cases wanted with
  | false => rfl
  | true => exact Step.performAll_of_sound hfs (h rfl) s

/-- The two stages follow each other; if both end well, the report says what was asked for. -/
theorem write_of_stages {render : Text → Text} {settings : Settings} {stages : Stages} {job : Job}
    {s : σ} {first second : (List LogLine × Option Error) × σ}
    (hfirst : stage fs.put stages.tangle
      (tanglePlan job.document.chunks job.lattice settings.directive)
      ("Tangled " ++ toString job.lattice.roots.length ++ " file(s)") s = first)
    (hsecond : stage fs.put stages.weave
      (weavePlan render job.document job.lattice settings.marker)
      ("Wove " ++ toString (pages job.document).length ++ " page(s)") first.2 = second)
    (htangled : first.1.2 = none) (hwoven : second.1.2 = none) :
    (write fs.put render settings stages job s).1.result
      = .ok { job.report with
          tangled := if stages.tangle then job.lattice.roots else []
          woven := if stages.weave then pages job.document else [] } := by
  obtain ⟨⟨log, failure⟩, s'⟩ := first
  obtain ⟨⟨log', failure'⟩, s''⟩ := second
  subst htangled hwoven
  simp only [write, bind, StateT.bind, hfirst, hsecond]
  rfl

/-- A job that ends well, on whatever file system, is reported as asked for. -/
theorem report_of_write {render : Text → Text} {settings : Settings} {stages : Stages} {job : Job}
    {s : σ} {report : Report}
    (h : (write fs.put render settings stages job s).1.result = .ok report) :
    report = { job.report with
      tangled := if stages.tangle then job.lattice.roots else []
      woven := if stages.weave then pages job.document else [] } := by
  generalize hfirst : stage fs.put stages.tangle
    (tanglePlan job.document.chunks job.lattice settings.directive)
    ("Tangled " ++ toString job.lattice.roots.length ++ " file(s)") s = first
  obtain ⟨⟨log, failure⟩, s'⟩ := first
  generalize hsecond : stage fs.put stages.weave
    (weavePlan render job.document job.lattice settings.marker)
    ("Wove " ++ toString (pages job.document).length ++ " page(s)") s' = second
  obtain ⟨⟨log', failure'⟩, s''⟩ := second
  simp only [write, bind, StateT.bind, hfirst] at h
  cases failure with
  | some e => cases h
  | none =>
      simp only [StateT.bind, hsecond] at h
      cases failure' with
      | some e => cases h
      | none =>
          cases h
          rfl

/-- Where both plans are sound, a job is done as asked. -/
theorem write_result (hfs : fs.NeverFails) (render : Text → Text) (settings : Settings)
    {stages : Stages} {job : Job}
    (htangle : ∀ step ∈ tanglePlan job.document.chunks job.lattice settings.directive, step.Sound)
    (hweave : stages.weave = true →
      ∀ step ∈ weavePlan render job.document job.lattice settings.marker, step.Sound) (s : σ) :
    (write fs.put render settings stages job s).1.result
      = .ok { job.report with
          tangled := if stages.tangle then job.lattice.roots else []
          woven := if stages.weave then pages job.document else [] } :=
  write_of_stages rfl rfl (stage_of_sound hfs (fun _ => htangle) _ s)
    (stage_of_sound hfs hweave _ _)

/-- What a run reports on a document set that passed the check. -/
def expected (d : Document) (outDir : Path) (stages : Stages) : Report :=
  { report ⟨d, d.lattice⟩ with
    tangled := if stages.tangle then d.lattice.roots else []
    woven := if stages.weave then pages (d.assignOutputs outDir) else [] }

end Job

/-! ## Whole runs -/

variable {σ : Type} {fs : FileSystem σ}

theorem run_fst_result (fs : FileSystem σ) (render : Text → Text) (settings : Settings)
    (root : Path) (stages : Stages) (s : σ) :
    (run fs render settings root stages s).1.result
      = match (Job.prepare (fs.read s) settings root stages).result with
        | .error e => .error e
        | .ok job => (Job.write fs.put render settings stages job s).1.result := by
  rw [run, Preparation.complete]
  cases (Job.prepare (fs.read s) settings root stages).result <;> rfl

/-- Where writes do not fail, what was checked decides how a run ends. -/
theorem run_result (hfs : fs.NeverFails) (render : Text → Text) (settings : Settings)
    (root : Path) (stages : Stages) (s : σ) :
    (run fs render settings root stages s).1.result
      = (Job.checked (fs.read s) settings root).map fun d =>
          Job.expected d (settings.outDirFor root) stages := by
  rw [run_fst_result, Job.prepare_result]
  cases hchecked : Job.checked (fs.read s) settings root with
  | error e => rfl
  | ok d =>
      obtain ⟨hok, hscan, hproblems⟩ := Job.of_checked_eq_ok hchecked
      have hdistinct := (Scan.passed_run hok).1
      rw [hscan] at hdistinct
      have htangle := Job.sound_tanglePlan hproblems settings.directive
      have hpages := Document.isSome_outputFor? hdistinct (settings.outDirFor root)
      have hweave := Job.sound_weavePlan hpages render d.lattice settings.marker
      obtain ⟨tangle, weave⟩ := stages
      cases weave with
      | false => exact Job.write_result hfs render settings htangle (by nofun) s
      | true => exact Job.write_result hfs render settings htangle (fun _ => hweave) s

/-- A run that succeeds, on whatever file system, reports on what it checked. -/
theorem exists_checked_of_report {render : Text → Text} {settings : Settings} {root : Path}
    {stages : Stages} {s : σ} {report : Report}
    (h : (run fs render settings root stages s).1.result = .ok report) :
    ∃ d, Job.checked (fs.read s) settings root = .ok d ∧
      report = Job.expected d (settings.outDirFor root) stages := by
  rw [run_fst_result, Job.prepare_result] at h
  cases hchecked : Job.checked (fs.read s) settings root with
  | error e =>
      rw [hchecked] at h
      cases h
  | ok d =>
      rw [hchecked] at h
      refine ⟨d, rfl, ?_⟩
      rw [Job.report_of_write h]
      obtain ⟨tangle, weave⟩ := stages
      cases weave <;> rfl

/-- A run that only checks leaves everything as it is. -/
theorem run_check_snd (fs : FileSystem σ) (render : Text → Text) (settings : Settings)
    (root : Path) (s : σ) : (run fs render settings root .check s).2 = s := by
  rw [run, Preparation.complete]
  cases (Job.prepare (fs.read s) settings root .check).result <;> rfl

/-- **Checking predicts building.**  For any files in memory, the four kinds of runs either
    all fail, with the same error, or all succeed, with the same report up to what they
    were asked to write; then the files written are the roots, and the pages written
    are those of all inputs, in their order.  A run that only checks changes nothing.
    In general, behind a check that passed, neither the files nor the pages can fail to
    be written where the file system takes all writes. -/
theorem check_predicts_build (render : Text → Text) (settings : Settings) (root : Path) :
    (∀ (store : Store) (d : Document),
      (Scan.run store.read root settings.book).document = d →
      (∃ e, ∀ stages,
        (run (Store.fileSystem .none) render settings root stages store).1.result = .error e) ∨
      ∃ woven : List Path,
        woven.map some = d.inputs.map (d.assignOutputs (settings.outDirFor root)).outputFor? ∧
        ∀ stages,
          (run (Store.fileSystem .none) render settings root stages store).1.result
            = .ok
              { inputs := d.inputs
                chunks := d.chunks.size
                roots := d.lattice.roots
                warnings := d.warnings
                tangled := if stages.tangle then d.lattice.roots else []
                woven := if stages.weave then woven else [] }) ∧
    (∀ store : Store,
      (run (Store.fileSystem .none) render settings root .check store).2 = store) ∧
    ∀ (σ : Type) (fs : FileSystem σ), fs.NeverFails →
      ∀ (read : Path → Except Fault Text) (outDir : Path) (d : Document),
        (Scan.run read root settings.book).failure = none →
        (Scan.run read root settings.book).document.assignOutputs outDir = d →
        d.lattice.problems d.chunks = [] → ∀ s : σ,
          (Step.performAll fs.put (Job.tanglePlan d.chunks d.lattice settings.directive) s).1.2
            = none ∧
          (Step.performAll fs.put (Job.weavePlan render d d.lattice settings.marker) s).1.2
            = none := by
  refine ⟨fun store d hd => ?_, run_check_snd _ render settings root, ?_⟩
  · have hrun : ∀ stages,
        (run (Store.fileSystem .none) render settings root stages store).1.result
          = (Job.checked store.read settings root).map fun d =>
              Job.expected d (settings.outDirFor root) stages :=
      fun stages => run_result Store.neverFails render settings root stages store
    cases hchecked : Job.checked store.read settings root with
    | error e =>
        left
        refine ⟨e, fun stages => ?_⟩
        rw [hrun stages, hchecked]
        rfl
    | ok checked =>
        right
        obtain ⟨hok, hscan, -⟩ := Job.of_checked_eq_ok hchecked
        have hdistinct := (Scan.passed_run hok).1
        have hsame : checked = d := hscan.symm.trans hd
        rw [hd] at hdistinct
        refine ⟨Job.pages (d.assignOutputs (settings.outDirFor root)), ?_, fun stages => ?_⟩
        · exact Job.map_some_pages (Document.isSome_outputFor? hdistinct _)
        · rw [hrun stages, hchecked, hsame]
          rfl
  · intro σ fs hfs read outDir d hok hd hproblems s
    subst hd
    have hpages := Document.isSome_outputFor? (Scan.passed_run hok).1 outDir
    constructor
    · exact Step.performAll_of_sound hfs (Job.sound_tanglePlan hproblems settings.directive) s
    · exact Step.performAll_of_sound hfs (Job.sound_weavePlan hpages render _ settings.marker) s

/-- The pamphlet passes the check, so its files and its pages are written. -/
theorem pamphlet_predicted :
    (Store.fileSystem .none).NeverFails ∧
    (Scan.run pamphlet ⟨['b']⟩ true).failure = none ∧
    boundPamphlet.lattice.problems boundPamphlet.chunks = [] ∧
    (Step.performAll (Store.fileSystem .none).put
      (Job.tanglePlan boundPamphlet.chunks boundPamphlet.lattice .none) .empty).1.2 = none ∧
    (Step.performAll (Store.fileSystem .none).put
      (Job.weavePlan id boundPamphlet boundPamphlet.lattice []) .empty).1.2 = none := by
  have hok : (Scan.run pamphlet ⟨['b']⟩ true).failure = none := by decide +kernel
  have hproblems : boundPamphlet.lattice.problems boundPamphlet.chunks = [] := by decide +kernel
  obtain ⟨-, -, hwritten⟩ := check_predicts_build id ⟨true, .none, none, []⟩ ⟨['b']⟩
  exact ⟨Store.neverFails, hok, hproblems,
    hwritten Store _ Store.neverFails pamphlet ⟨['o']⟩ boundPamphlet hok rfl hproblems .empty⟩

end Literate
