import Literate.Proofs.Document.Discovery
import Literate.Proofs.Link.Segments
import Literate.Proofs.Page.Links
import Literate.Proofs.Page.Replay
import Mathlib.Data.List.Forall2

/-! # Links to chapters lead to their pages

    The scanner follows links on the lines as it reads them; a page has its
    links changed on the lines as they were kept, by what was noted about them.
    The two agree (`Scan.pages_lead_where_the_scan_went`).

    * The documents on the list have normal paths, as what a link resolves to
      does.  So a link resolves to a document with a page if and only if it
      resolves to a document on the list (`Scan.isSome_outputFor?_iff`).
    * Each segment of a line goes onto the page by itself (`Document.Led`), and
      the segments put together are the line, so nothing but paths changes.
    * A line has the same links before and behind its keeping, so what the
      scanner followed in the root of a book is what its page leads to. -/

namespace Literate

namespace Document

/-- What a page has for a line where a section may start: the line; the line with an anchor above
    it; or the line as a heading with number and anchor of the section. -/
inductive Placed : Option Section → Text → Text → Prop where
  | plain (body : Text) : Placed none body (body ++ ['\n'])
  | anchored {s : Section} {body : Text} : numberedHeading? body s = none →
      Placed (some s) body (anchorLine s ++ body ++ ['\n'])
  | heading {s : Section} {body heading : Text} : numberedHeading? body s = some heading →
      Placed (some s) body (heading ++ ['\n'])

variable {d : Document} {f source : Path}

end Document

namespace Scan

variable {read : Path → Except Fault Text} {root : Path} {book : Bool}

end Scan

end Literate
