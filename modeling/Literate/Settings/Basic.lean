import Literate.Directive
import Literate.Path.Basic

/-!
# Settings

The settings of a run come from a settings file; what is given on the command line wins over it. The
file is looked for in a directory and in its parents, from the inside out.
-/

namespace Literate

/-- The settings of a run. -/
structure Settings where
  /-- Whether the links of the root document name chapters. -/
  book : Bool
  /-- What is written before every tangled line. -/
  directive : Directive
  /-- Where pages are written, if not beside the root document. -/
  outDir : Option Path
  /-- What stands before the name of a chunk on its page. -/
  marker : Text

/-- Settings that win over those of the file, where they are given. -/
structure SettingsOverrides where
  book : Bool
  directive : Option Directive
  outDir : Option Path
  marker : Option Text

namespace Settings

/-- The settings without a settings file. -/
def default : Settings := ⟨false, .none, none, []⟩

/-- The directory for the pages of a root document. -/
def outDirFor (s : Settings) (root : Path) : Path :=
  match s.outDir with
  | some dir => dir
  | none => root.parent

/-- The settings with the overrides in force. A book stays a book. -/
def override (s : Settings) (o : SettingsOverrides) : Settings where
  book := s.book || o.book
  directive := o.directive.getD s.directive
  outDir := o.outDir <|> s.outDir
  marker := o.marker.getD s.marker

/-- The names of a settings file, in the order in which they are tried. -/
def fileNames : List Text :=
  ["litweave.toml".toList, ".litweave.toml".toList]

/-- The places where the settings file can be, nearest first. -/
def candidates (start : Path) : List Path :=
  start.ancestors.flatMap fun dir => fileNames.map fun name => dir.join ⟨name⟩

/-- The settings file in force for a directory. -/
def findFile? (present : Path → Bool) (start : Path) : Option Path :=
  (candidates start).find? present

end Settings

end Literate
