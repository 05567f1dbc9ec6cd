import Literate.Error
import Literate.Pieces

/-!
# File systems

A file system answers reads and takes writes; its whole state is a value. A file is written by
opening it, which empties or creates it, and then appending blocks. Small pieces are gathered in a
buffer before they reach the file, so a file that runs full may be left with less than the pieces
written so far.

A run's writes are planned before the first one happens. What a file will hold is worked out only
when the file is open. Carrying out a plan goes through its steps in order and ends with the first
failure.
-/

namespace Literate

/-- How a state answers reads and takes writes. -/
structure FileSystem (σ : Type) where
  read : σ → Path → Except Fault Text
  /-- The state in which the file is there and empty. -/
  create : σ → Path → Except Fault σ
  /-- The state in which the file has one block more. -/
  append : σ → Path → Text → Except Fault σ

/-- A file to be written, piece by piece. -/
structure Write where
  target : Path
  /-- The pieces, and at their end what went wrong with making them. -/
  content : Unit → Pieces (Option Error)
  /-- Whether the pieces go through a buffer. -/
  buffered : Bool

namespace Write

/-- The text of the file. -/
def text (w : Write) : Text :=
  (w.content ()).text

/-- The blocks that reach the file. -/
def blocks (w : Write) : Pieces (Option Error) :=
  if w.buffered then (w.content ()).buffered else w.content ()

/-- The blocks of a write say what its pieces say. -/
theorem text_blocks (w : Write) : w.blocks.text = w.text := by
  unfold blocks text
  split
  · simp [Pieces.buffered, Pieces.text_throughBuffer]
  · rfl

end Write

namespace FileSystem

variable {σ : Type}

/-- Appends blocks until one is refused. -/
def appendAll (fs : FileSystem σ) (path : Path) : Pieces (Option Error) → σ → Option Error × σ
  | .done failure, s => (failure, s)
  | .piece block rest, s =>
    match fs.append s path block with
    | .error fault => (some (.io fault), s)
    | .ok s => fs.appendAll path (rest ()) s

/-- Writes a file. -/
def put (fs : FileSystem σ) (w : Write) : StateM σ (Option Error) := fun s =>
  match fs.create s w.target with
  | .error fault => (some (.io fault), s)
  | .ok s => fs.appendAll w.target w.blocks s

end FileSystem

/-- One step of a plan: a file to write, with the words that announce it, or a failure. -/
inductive Step where
  | write (announcement : String) (w : Write)
  | fail (e : Error)

namespace Step

/-- Carries out steps until one fails. The announcements of the steps begun are kept. -/
def performAll {m : Type → Type} [Monad m] (put : Write → m (Option Error)) :
    List Step → m (List String × Option Error)
  | [] => pure ([], none)
  | .fail e :: _ => pure ([], some e)
  | .write announcement w :: rest => do
    match ← put w with
    | some e => pure ([announcement], some e)
    | none =>
      let (announcements, failure) ← performAll put rest
      pure (announcement :: announcements, failure)

end Step

end Literate
