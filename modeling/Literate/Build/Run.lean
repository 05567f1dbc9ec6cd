import Literate.Build.Report
import Literate.Expansion
import Literate.FileSystem
import Literate.Page.Annotation
import Literate.Settings.Basic

/-!
# Runs

A run scans a document set, checks its lattice, and then writes the files and the pages it was asked
for. Nothing is written unless the check succeeds. The writes are a plan that is fixed before the
first of them: one file for each root of the lattice, then one page for each document.
-/

namespace Literate

/-- A document set that passed the check, ready to be written. -/
structure Job where
  document : Document
  lattice : Lattice

/-- What came of scanning and checking. -/
structure Preparation where
  log : List LogLine
  result : Except Error Job

namespace Scan

/-- What the log says about a scan. -/
def log (scan : Scan) : List LogLine :=
  let line (verb : String) (path : Path) : LogLine := ⟨.debug, verb ++ " " ++ toString path⟩
  let d := scan.document
  (scan.started.take 1).flatMap (fun root => [line "Scheduled" root, line "Scanning" root])
    ++ (d.inputs.drop 1).map (line "Scheduled")
    ++ (scan.started.drop 1).map (line "Scanning")
    ++ (if scan.failure.isNone then
          [⟨.debug, "Scanned " ++ toString d.inputs.length ++ " file(s), "
            ++ toString d.chunks.size ++ " chunk(s)"⟩]
        else [])
    ++ d.warnings.map fun w => ⟨.warn, w.message⟩

end Scan

namespace Job

/-- What the report says before anything is written. -/
def report (job : Job) : Report where
  inputs := job.document.inputs
  chunks := job.document.chunks.size
  roots := job.lattice.roots
  warnings := job.document.warnings
  tangled := []
  woven := []

/-- Scans and checks a document set. -/
def prepare (read : Path → Except Fault Text) (settings : Settings) (root : Path)
    (stages : Stages) : Preparation :=
  let scan := Scan.run read root settings.book
  match scan.failure with
  | some e => ⟨scan.log, .error e⟩
  | none =>
    let document :=
      if stages.weave then scan.document.assignOutputs (settings.outDirFor root)
      else scan.document
    let lattice := document.lattice
    match lattice.problems document.chunks with
    | [] =>
      let checked : LogLine :=
        ⟨.debug, "Checked " ++ toString document.chunks.size ++ " chunk(s) in "
          ++ toString document.inputs.length ++ " file(s)"⟩
      ⟨scan.log ++ [checked], .ok ⟨document, lattice⟩⟩
    | problems => ⟨scan.log, .error (.invalid problems)⟩

/-- The step that writes the file of a root. -/
def tangleRoot (chunks : ChunkTable) (d : Directive) (root : ChunkName) : Step :=
  let content (_ : Unit) : Pieces (Option Error) :=
    (chunks.expansion d root).andThen fun e =>
      .done (e.cycle.map fun names => .invalid [.cycle names])
  .write ("Tangling " ++ toString root) ⟨⟨root.text⟩, content, true⟩

/-- The steps that write the files of all roots. -/
def tanglePlan (chunks : ChunkTable) (lattice : Lattice) (d : Directive) : List Step :=
  lattice.roots.map (tangleRoot chunks d)

/-- The step that writes the page of a document. -/
def weaveInput (render : Text → Text) (d : Document) (lattice : Lattice) (marker : Text)
    (input : Path) : Step :=
  match d.outputFor? input with
  | none => .fail (.noOutput input)
  | some output =>
    let content (_ : Unit) : Pieces (Option Error) :=
      .piece (render (d.annotate lattice marker input)) fun _ => .done none
    .write ("Weaving " ++ toString input ++ " -> " ++ toString output) ⟨output, content, false⟩

/-- The steps that write the pages of all documents. -/
def weavePlan (render : Text → Text) (d : Document) (lattice : Lattice) (marker : Text) :
    List Step :=
  d.inputs.map (weaveInput render d lattice marker)

/-- The pages of all documents. -/
def pages (d : Document) : List Path :=
  d.inputs.filterMap d.outputFor?

/-- Carries out the steps of one stage, and sums it up if they all succeed. -/
def stage {m : Type → Type} [Monad m] (put : Write → m (Option Error)) (wanted : Bool)
    (steps : List Step) (summary : String) : m (List LogLine × Option Error) :=
  if wanted then do
    let (announcements, failure) ← Step.performAll put steps
    let lines := if failure.isNone then announcements ++ [summary] else announcements
    pure (lines.map (⟨.debug, ·⟩), failure)
  else pure ([], none)

/-- Writes the files and pages asked for. -/
def write {m : Type → Type} [Monad m] (put : Write → m (Option Error)) (render : Text → Text)
    (settings : Settings) (stages : Stages) (job : Job) : m Outcome := do
  let roots := job.lattice.roots
  let pages := pages job.document
  let (tangleLog, failure) ← stage put stages.tangle
    (tanglePlan job.document.chunks job.lattice settings.directive)
    ("Tangled " ++ toString roots.length ++ " file(s)")
  match failure with
  | some e => pure ⟨tangleLog, .error e⟩
  | none =>
    let (weaveLog, failure) ← stage put stages.weave
      (weavePlan render job.document job.lattice settings.marker)
      ("Wove " ++ toString pages.length ++ " page(s)")
    match failure with
    | some e => pure ⟨tangleLog ++ weaveLog, .error e⟩
    | none =>
      pure ⟨tangleLog ++ weaveLog, .ok { job.report with
        tangled := if stages.tangle then roots else []
        woven := if stages.weave then pages else [] }⟩

end Job

/-- What came of preparing, followed by what came of writing. -/
def Preparation.complete {m : Type → Type} [Monad m] (p : Preparation)
    (write : Job → m Outcome) : m Outcome :=
  match p.result with
  | .error e => pure ⟨p.log, .error e⟩
  | .ok job => do
    let outcome ← write job
    pure ⟨p.log ++ outcome.log, outcome.result⟩

/-- A whole run on a file system. -/
def run {σ : Type} (fs : FileSystem σ) (render : Text → Text) (settings : Settings) (root : Path)
    (stages : Stages) : StateM σ Outcome := fun s =>
  ((Job.prepare (fs.read s) settings root stages).complete
    (Job.write fs.put render settings stages)) s

/-- The expansion of a chunk as text, if the lattice knows its name. -/
def tangleText (chunks : ChunkTable) (lattice : Lattice) (d : Directive) (name : ChunkName) :
    Except Error Text :=
  if lattice.names.contains name then
    let (pieces, e) := (chunks.expansion d name).collect
    match e.cycle with
    | some names => .error (.invalid [.cycle names])
    | none => .ok pieces.flatten
  else .error (.unknownChunk name)

end Literate
