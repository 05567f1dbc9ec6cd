import Literate.Build.Run
import Literate.Disk
import Literate.Settings.File

/-!
# Hosts

A host is the surroundings of a run: a working directory, files, the standard input. What it answers
may depend on a state or on the world, so a run on a host is an action. The documents of a run are
known as soon as its root is read; they are read first, and the scan works on what was read.

Documents and outputs are named as seen from a base directory, which need not be the working
directory. The settings file is looked for from the base directory outwards.
-/

namespace Literate

/-- The surroundings of a run. Paths are as seen from the working directory. -/
structure Host (m : Type → Type) where
  /-- The working directory as an absolute path. -/
  workingDirectory : m Path
  /-- Whether there is something under a path. -/
  present : Path → m Bool
  read : Path → m (Except Fault Text)
  /-- The text of the standard input. -/
  input : m (Except Fault Text)
  put : Write → m (Option Error)

namespace Host

variable {m : Type → Type} [Monad m]

/-! ## Settings -/

/-- The first path under which there is something. -/
def firstPresent? (host : Host m) : List Path → m (Option Path)
  | [] => pure none
  | p :: rest => do if ← host.present p then pure (some p) else host.firstPresent? rest

/-- Reads a settings file. Success leaves a line in the log. -/
def readSettings (host : Host m) (file : Path) : m (List LogLine × Except Error Settings) := do
  match ← host.read file with
  | .error fault => pure ([], .error (.io fault))
  | .ok text =>
    match SettingsFile.parse? text with
    | none => pure ([], .error (.settings file))
    | some settings =>
      pure ([⟨.debug, "Loaded configuration from " ++ toString file⟩], .ok settings)

/-- The settings in force for a directory. -/
def settingsFor (host : Host m) (dir : Path) : m (List LogLine × Except Error Settings) := do
  match ← host.firstPresent? (Settings.candidates dir) with
  | some file => host.readSettings file
  | none => pure ([], .ok .default)

/-! ## Runs -/

/-- Reads a document as seen from a base directory. -/
def readDocument (host : Host m) (base p : Path) : m (Except Fault Text) :=
  if p == Path.standardInput then host.input else host.read (base.join p)

/-- Reads documents one after the other. -/
def readDocuments (host : Host m) (base : Path) :
    List Path → m (List (Path × Except Fault Text))
  | [] => pure []
  | p :: rest => do
    let content ← host.readDocument base p
    let contents ← host.readDocuments base rest
    pure ((p, content) :: contents)

/-- Reads all documents of a run. -/
def readAll (host : Host m) (base root : Path) (book : Bool) :
    m (List (Path × Except Fault Text)) := do
  let root := root.normalize
  let content ← host.readDocument base root
  let chapters := match content with
    | .ok text => (Scan.inputsOf root text book).drop 1
    | .error _ => []
  let contents ← host.readDocuments base chapters
  pure ((root, content) :: contents)

/-- Writes a file as seen from a base directory. -/
def putFrom (host : Host m) (base : Path) (w : Write) : m (Option Error) :=
  host.put { w with target := base.join w.target }

/-- A whole run, as seen from a base directory. -/
def run (host : Host m) (base : Path) (render : Text → Text) (settings : Settings) (root : Path)
    (stages : Stages) : m Outcome := do
  let contents ← host.readAll base root settings.book
  let read (p : Path) : Except Fault Text := (contents.lookup p).getD (.error .noSuchFile)
  (Job.prepare read settings root stages).complete
    (Job.write (host.putFrom base) render settings stages)

end Host

namespace Disk

/-- A disk with a standard input as a host. -/
def host (input : ByteArray) : Host (StateM Disk) where
  workingDirectory := fun d => (pathOf d.workingDirectory, d)
  present p := fun d => ((d.lookup? p).isSome, d)
  read p := fun d => (d.read p, d)
  input := pure (decode input)
  put := fileSystem.put

/-- Looking for a path on a disk finds the first one that leads somewhere, and changes nothing. -/
theorem firstPresent?_host (input : ByteArray) (paths : List Path) (d : Disk) :
    (host input).firstPresent? paths d = (paths.find? fun p => (d.lookup? p).isSome, d) := by
  induction paths with
  | nil => rfl
  | cons p rest ih =>
    show (if (d.lookup? p).isSome then (pure (some p) : StateM Disk _)
      else (host input).firstPresent? rest) d = _
    rw [List.find?_cons]
    cases h : (d.lookup? p).isSome
    · simpa [h] using ih
    · rfl

end Disk

end Literate
