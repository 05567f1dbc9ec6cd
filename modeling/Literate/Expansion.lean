import Literate.Directive
import Literate.Error
import Literate.Pieces

/-!
# Expansion

Tangling a chunk replaces every reference by the chunk it names, and writes every other line behind
its directive and indentation. The blanks before a reference are put in front of the indentation
that holds around it.

The chunks that are open while a line is written form a path from the outside in. No name is on it
twice: entering an open chunk again ends the expansion with the cycle it would close. That is also
why the recursion ends, since every chunk entered leaves fewer names of the table to enter.

What is written is given out in pieces, one for each time the writer is called, because a file that
runs full takes whole pieces only. A chunk can expand to far more text than anyone has room for, so
what follows a piece is expanded only when the piece has been taken.
-/

namespace Literate

/-- The chunks being expanded, from the outside in. -/
structure OpenPath where
  names : List ChunkName

namespace OpenPath

/-- The path on which no chunk is open. -/
def empty : OpenPath := ⟨[]⟩

/-- Number of open chunks. -/
def depth (p : OpenPath) : Nat :=
  p.names.length

/-- Enters a chunk, or gives the cycle that entering it would close. -/
def push (p : OpenPath) (name : ChunkName) : Except (List ChunkName) OpenPath :=
  if p.names.contains name then .error (Lattice.closing p.names name)
  else .ok ⟨p.names ++ [name]⟩

/-- Leaves the innermost chunk. -/
def pop (p : OpenPath) : OpenPath :=
  ⟨p.names.dropLast⟩

/-- The innermost chunk. -/
def innermost? (p : OpenPath) : Option ChunkName :=
  p.names.getLast?

theorem push_eq_ok_iff {p q : OpenPath} {name : ChunkName} :
    p.push name = .ok q ↔ name ∉ p.names ∧ q = ⟨p.names ++ [name]⟩ := by
  unfold push
  split
  · next h => simp_all
  · next h => simp_all [eq_comm]

end OpenPath

/-- How an expansion ended: the chunks open there, and the cycle that ended it early. -/
structure Ending where
  path : OpenPath
  cycle : Option (List ChunkName)

/-- The pieces of a code line: directive, indentation, text and line feed. -/
def ChunkLine.pieces (d : Directive) (indent : Text) (line : ChunkLine) : List Text :=
  [d.format (indent ++ line.text.indent) line.location.file.spelling line.location.line,
    indent, line.text, ['\n']]

namespace ChunkTable

/-- Number of names that can still be entered. -/
def remaining (table : ChunkTable) (path : OpenPath) : Nat :=
  (table.keys.filter fun name => !path.names.contains name).length

/-- Entering a chunk of the table leaves fewer names to enter. -/
theorem remaining_lt {table : ChunkTable} {path inner : OpenPath} {name : ChunkName} {chunk : Chunk}
    (hp : path.push name = .ok inner) (hc : table.get? name = some chunk) :
    table.remaining inner < table.remaining path := by
  obtain ⟨hn, rfl⟩ := OpenPath.push_eq_ok_iff.1 hp
  refine length_filter_lt (fun x hx => ?_) (OrderedMap.mem_keys_iff.2 ⟨chunk, hc⟩)
    (by simpa using hn) (by simp)
  simp only [Bool.not_eq_true', List.contains_eq_mem, decide_eq_false_iff_not, List.mem_append,
    not_or] at hx ⊢
  exact hx.1

mutual

/-- The expansion of a chunk at an indentation, inside the chunks on the path. A name that is not in
the table expands to nothing. -/
def expand (table : ChunkTable) (d : Directive) (name : ChunkName) (indent : Text)
    (path : OpenPath) : Pieces Ending :=
  match _hp : path.push name with
  | .error names => .done ⟨path, some names⟩
  | .ok inner =>
    match _hc : table.get? name with
    | none => .done ⟨inner.pop, none⟩
    | some chunk =>
      (expandLines table d chunk.lines indent inner).andThen fun e =>
        .done (if e.cycle.isSome then e else { e with path := e.path.pop })
  termination_by (table.remaining path, 0)
  decreasing_by
    exact Prod.Lex.left _ _ (remaining_lt _hp _hc)

/-- The expansion of lines at an indentation, one after the other. -/
def expandLines (table : ChunkTable) (d : Directive) (lines : List ChunkLine) (indent : Text)
    (path : OpenPath) : Pieces Ending :=
  match lines with
  | [] => .done ⟨path, none⟩
  | line :: rest =>
    match line.reference? with
    | some ref =>
      (expand table d ref.name (ref.indent ++ indent) path).andThen fun e =>
        if e.cycle.isSome then .done e else expandLines table d rest indent path
    | none =>
      Pieces.prepend (line.pieces d indent) fun _ => expandLines table d rest indent path
  termination_by (table.remaining path, lines.length)

end

/-- The expansion of a chunk on its own. -/
def expansion (table : ChunkTable) (d : Directive) (name : ChunkName) : Pieces Ending :=
  table.expand d name [] .empty

/-! ## Writing a chunk -/

/-- What went wrong with a chunk: a piece was answered with a fault, or a cycle ended the
expansion. -/
def failure? : Except Fault Ending → Option Error
  | .error fault => some (.io fault)
  | .ok e => e.cycle.map fun names => .invalid [.cycle names]

/-- Writes a chunk at an indentation, piece by piece, and tells what went wrong. -/
def writeOut {m : Type → Type} [Monad m] (table : ChunkTable) (d : Directive) (name : ChunkName)
    (indent : Text) (write : Text → ExceptT Fault m Unit) : m (Option Error) :=
  failure? <$> ((table.expand d name indent .empty).feed write).run

end ChunkTable

/-- Something to write to. It has room for a number of bytes, and a fault to answer with. -/
structure Sink where
  room : Nat
  fault : Fault

/-- A piece goes behind what the sink holds, or is refused as a whole. -/
def Sink.write (sink : Sink) (piece : Text) : ExceptT Fault (StateM Text) Unit :=
  ExceptT.mk fun held =>
    if (held ++ piece).byteSize ≤ sink.room then (.ok (), held ++ piece)
    else (.error sink.fault, held)

end Literate
