import Literate.Command.Arguments
import Literate.Command.Json
import Literate.Host
import Literate.Markdown.Html

/-!
# Running commands

A command first settles its base directory and its settings, then announces itself in the log and
runs. What it prints sums up the report of the run. Debug lines of the log are kept only when asked
for. A failed run ends with status one, a refused command line with status two.
-/

namespace Literate

namespace Report

/-- A line for each of the given names, set in by two blanks. -/
def listing (names : List String) : List String :=
  names.map ("  " ++ ·)

/-- What was written, line by line. -/
def written (r : Report) : List String :=
  let tangled :=
    if r.tangled.isEmpty then []
    else ("Tangled " ++ toString r.tangled.length ++ " files.") :: listing (r.tangled.map toString)
  let woven :=
    if r.woven.isEmpty then []
    else ("Wove " ++ toString r.woven.length ++ " pages.") :: listing (r.woven.map toString)
  if r.tangled.isEmpty && r.woven.isEmpty then ["Nothing to write."] else tangled ++ woven

/-- What was found, line by line. -/
def found (r : Report) : List String :=
  (toString r.chunks ++ " chunks in " ++ toString r.inputs.length ++ " files, "
    ++ toString r.warnings.length ++ " warnings.") :: listing (r.roots.map toString)

end Report

/-- How a verb announces itself. -/
def Verb.announcement : Verb → String
  | .build => "Building"
  | .tangle => "Tangling"
  | .weave => "Weaving"
  | .check => "Checking"

/-- What a command leaves behind apart from files: its log, and what it prints or why it failed. -/
structure Execution where
  log : List LogLine
  result : Except Error String

namespace Execution

/-- The exit status. -/
def status (e : Execution) : Nat :=
  match e.result with
  | .ok _ => 0
  | .error _ => 1

/-- The exit status of a refused command line. -/
def usageStatus : Nat := 2

/-- What is printed on the standard output. -/
def output (e : Execution) : String :=
  match e.result with
  | .ok printed => printed
  | .error _ => ""

/-- What is said about a failure. -/
def complaint (e : Execution) : String :=
  match e.result with
  | .ok _ => ""
  | .error error => "Error: " ++ error.message

end Execution

namespace Command

/-- What a command prints about its report. -/
def print (c : Command) (r : Report) : String :=
  let lines := match c.verb, c.json with
    | .check, true => [String.ofList (r.toJson.write 0)]
    | .check, false => r.found
    | _, _ => r.written
  String.join (lines.map (· ++ "\n"))

/-- The part of a log that a command shows, spelled for a terminal. -/
def shown (c : Command) (log : List LogLine) : List LogLine :=
  (log.filter fun line => c.verbose || line.level != .debug).map LogLine.spelled

/-- Runs a command on a host. -/
def run {m : Type → Type} [Monad m] (host : Host m) (c : Command) : m Execution := do
  let base ← match c.directory with
    | some dir => pure dir
    | none => host.workingDirectory
  let (loading, settings) ← match c.settingsFile with
    | some file => host.readSettings file
    | none => host.settingsFor base
  match settings with
  | .error e => pure ⟨c.shown loading, .error e⟩
  | .ok settings =>
    let announced : LogLine := ⟨.info, c.verb.announcement ++ " " ++ toString c.root ++ "..."⟩
    let outcome ← host.run base Markdown.toHtml (settings.override c.overrides) c.root c.verb.stages
    pure ⟨c.shown (loading ++ announced :: outcome.log), outcome.result.map c.print⟩

end Command

end Literate
