import Literate.Main
import Literate.Proofs.Build.Rearrangement
import Literate.Proofs.Build.Warnings
import Literate.Proofs.Expansion.Reentry
import Literate.Proofs.Link.Pattern
import Literate.Proofs.Link.Splice
import Literate.Proofs.Page.Additions
import Literate.Proofs.Page.Chapters
import Literate.Proofs.Page.Collision
import Literate.Proofs.Page.Links
import Literate.Proofs.Page.Parts
import Literate.Proofs.Page.Uses
import Literate.Proofs.SourceMap
import Literate.Store
import Literate.Proofs.Directive
import Literate.Proofs.Lattice.Growth
import Literate.Proofs.Lattice.Shortest
import Literate.Proofs.Expansion.Indentation
import Literate.Proofs.Path.Parent
import Literate.Proofs.Page.Beside
import Literate.Proofs.Page.Language
import Literate.Proofs.Expansion.Completion
import Literate.Proofs.Document.Scheduling
import Literate.Proofs.Path.Location
import Literate.Proofs.Document.Keeping
import Literate.Proofs.Expansion.Sink
import Literate.Proofs.Path.Ancestors
import Literate.Proofs.Settings.Search
