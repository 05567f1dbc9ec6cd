import Literate.Expansion
import Literate.Proofs.Lattice.Verification

/-! # What an expansion emits

    The pieces that an expansion gives out come four to a code line.  A trace
    keeps what the pieces forget: which line of which chunk was emitted, under
    which indentation, and through which reference lines the expansion had come
    there.  Traces are given by rules (`Emits`), without an open path and
    without an order of evaluation.

    * In a table without cycles whose references all have a chunk, every chunk
      has a trace (`exists_emits`), by induction along the references.
    * The run of an expansion gives out the pieces of the trace and ends as it
      began: it meets no open chunk (`Emits.run`).  The invariant is that every
      chunk on the open path leads to the chunk being expanded, so meeting one
      of them again would close a cycle. -/

namespace Literate

open Relation

/-- A line of a chunk, by its position in the chunk. -/
structure Site where
  chunk : ChunkName
  index : Nat
  deriving DecidableEq

/-- A code line as it is emitted. -/
structure Emission where
  /-- The reference lines through which the expansion came to the chunk. -/
  via : List Site
  /-- Where the line stands. -/
  site : Site
  /-- What is put in front of the line. -/
  indent : Text
  line : ChunkLine

namespace Emission

/-- The pieces that an emission gives out. -/
def pieces (d : Directive) (e : Emission) : List Text :=
  e.line.pieces d e.indent

end Emission

/-- Leaving a chunk undoes entering it. -/
theorem OpenPath.pop_append (names : List ChunkName) (name : ChunkName) :
    OpenPath.pop ⟨names ++ [name]⟩ = ⟨names⟩ := by
  simp [OpenPath.pop]

namespace ChunkTable

variable {t : ChunkTable} {d : Directive}

/-- The emissions of lines that stand in the chunk `c` from position `k` on, at
    an indentation, reached through the reference lines `via`. -/
inductive Emits (t : ChunkTable) :
    List Site → ChunkName → Nat → List ChunkLine → Text → List Emission → Prop where
  | nil {via : List Site} {c : ChunkName} {k : Nat} {indent : Text} :
      Emits t via c k [] indent []
  | code {via : List Site} {c : ChunkName} {k : Nat} {line : ChunkLine}
      {rest : List ChunkLine} {indent : Text} {es : List Emission} :
      line.reference? = none → Emits t via c (k + 1) rest indent es →
      Emits t via c k (line :: rest) indent (⟨via, ⟨c, k⟩, indent, line⟩ :: es)
  | reference {via : List Site} {c : ChunkName} {k : Nat} {line : ChunkLine}
      {rest : List ChunkLine} {indent : Text} {ref : Reference} {chunk : Chunk}
      {inner es : List Emission} :
      line.reference? = some ref → t.get? ref.name = some chunk →
      Emits t (via ++ [⟨c, k⟩]) ref.name 0 chunk.lines (ref.indent ++ indent) inner →
      Emits t via c (k + 1) rest indent es →
      Emits t via c k (line :: rest) indent (inner ++ es)

/-- The emissions of a chunk on its own. -/
def Trace (t : ChunkTable) (name : ChunkName) (es : List Emission) : Prop :=
  ∃ chunk, t.get? name = some chunk ∧ Emits t [] name 0 chunk.lines [] es

/-! ## Traces exist -/

/-- Lines have a trace if the chunks they refer to have one. -/
theorem exists_emits_lines {lines : List ChunkLine}
    (h : ∀ line ∈ lines, ∀ ref, line.reference? = some ref →
      ∃ chunk, t.get? ref.name = some chunk ∧
        ∀ via indent, ∃ es, Emits t via ref.name 0 chunk.lines indent es) :
    ∀ (via : List Site) (c : ChunkName) (k : Nat) (indent : Text),
      ∃ es, Emits t via c k lines indent es := by
  induction lines with
  | nil => intro via c k indent; exact ⟨[], Emits.nil⟩
  | cons line rest ih =>
      intro via c k indent
      obtain ⟨es, hes⟩ :=
        ih (fun l hl => h l (List.mem_cons_of_mem _ hl)) via c (k + 1) indent
      cases hr : line.reference? with
      | none => exact ⟨_, Emits.code hr hes⟩
      | some ref =>
          obtain ⟨chunk, hc, hall⟩ := h line List.mem_cons_self ref hr
          obtain ⟨inner, hin⟩ := hall (via ++ [⟨c, k⟩]) (ref.indent ++ indent)
          exact ⟨_, Emits.reference hr hc hin hes⟩

/-- A line of a chunk that is a reference is a reference of the chunk. -/
theorem refers_of_mem {name : ChunkName} {chunk : Chunk} {line : ChunkLine}
    {ref : Reference} (hc : t.get? name = some chunk) (hl : line ∈ chunk.lines)
    (hr : line.reference? = some ref) : t.Refers name ref.name :=
  ⟨chunk, hc, line, hl, ref, hr, rfl⟩

/-- Without cycles and missing chunks, every chunk has a trace. -/
theorem exists_emits (hac : t.Acyclic) (hcl : t.Closed) (name : ChunkName) :
    ∀ chunk, t.get? name = some chunk → ∀ (via : List Site) (indent : Text),
      ∃ es, Emits t via name 0 chunk.lines indent es := by
  -- on the way down along the references, which has no endless branch
  induction name using hac.wellFounded_referred.induction with
  | _ name ih =>
      intro chunk hc via indent
      refine exists_emits_lines ?_ via name 0 indent
      intro line hl ref hr
      have href : t.Refers name ref.name := refers_of_mem hc hl hr
      obtain ⟨inner, hin⟩ := OrderedMap.mem_keys_iff.1 (hcl name ref.name href)
      exact ⟨inner, hin, ih ref.name href inner hin⟩

/-! ## Runs follow traces -/

theorem expandLines_nil (indent : Text) (path : OpenPath) :
    t.expandLines d [] indent path = .done ⟨path, none⟩ := by
  rw [expandLines]

theorem expandLines_code {line : ChunkLine} (h : line.reference? = none)
    (rest : List ChunkLine) (indent : Text) (path : OpenPath) :
    t.expandLines d (line :: rest) indent path
      = Pieces.prepend (line.pieces d indent) fun _ =>
          t.expandLines d rest indent path := by
  rw [expandLines]
  simp only [h]

theorem expandLines_reference {line : ChunkLine} {ref : Reference}
    (h : line.reference? = some ref) (rest : List ChunkLine) (indent : Text)
    (path : OpenPath) :
    t.expandLines d (line :: rest) indent path
      = (t.expand d ref.name (ref.indent ++ indent) path).andThen fun e =>
          if e.cycle.isSome then .done e else t.expandLines d rest indent path := by
  rw [expandLines]
  simp only [h]

/-- Entering a chunk that is not open expands its lines inside it. -/
theorem expand_of_not_mem {name : ChunkName} {chunk : Chunk} {path : OpenPath}
    (hn : name ∉ path.names) (hc : t.get? name = some chunk) (indent : Text) :
    t.expand d name indent path
      = (t.expandLines d chunk.lines indent ⟨path.names ++ [name]⟩).andThen fun e =>
          .done (if e.cycle.isSome then e else { e with path := e.path.pop }) := by
  have hpush : path.push name = .ok ⟨path.names ++ [name]⟩ :=
    OpenPath.push_eq_ok_iff.2 ⟨hn, rfl⟩
  rw [expand]
  -- the two cases are matched with their equations, so they are named before they are put in
  generalize path.push name = entered at hpush ⊢
  generalize t.get? name = found at hc ⊢
  subst hpush hc
  rfl

/-- If the lines of a chunk that is not open run to their end, so does the chunk. -/
theorem expand_run {name : ChunkName} {chunk : Chunk} {path : OpenPath} {indent : Text}
    {ts : List Text} (hn : name ∉ path.names) (hc : t.get? name = some chunk)
    (h : (t.expandLines d chunk.lines indent ⟨path.names ++ [name]⟩).list = ts ∧
      (t.expandLines d chunk.lines indent ⟨path.names ++ [name]⟩).value
        = ⟨⟨path.names ++ [name]⟩, none⟩) :
    (t.expand d name indent path).list = ts ∧
      (t.expand d name indent path).value = ⟨path, none⟩ := by
  rw [expand_of_not_mem hn hc]
  constructor
  · rw [Pieces.list_andThen, h.1]
    exact List.append_nil ts
  · rw [Pieces.value_andThen, h.2]
    show (⟨OpenPath.pop ⟨path.names ++ [name]⟩, none⟩ : Ending) = _
    rw [OpenPath.pop_append]

/-- The run over lines gives out the pieces of their trace and leaves the path as
    it was, if every open chunk leads to the chunk that the lines stand in. -/
theorem Emits.run (hac : t.Acyclic) {via : List Site} {c : ChunkName} {k : Nat}
    {lines : List ChunkLine} {indent : Text} {es : List Emission}
    (h : Emits t via c k lines indent es) :
    ∀ path : OpenPath,
      (∀ line ∈ lines, ∀ ref, line.reference? = some ref → t.Refers c ref.name) →
      (∀ name ∈ path.names, ReflTransGen t.Refers name c) →
      (t.expandLines d lines indent path).list = es.flatMap (Emission.pieces d) ∧
        (t.expandLines d lines indent path).value = ⟨path, none⟩ := by
  induction h with
  | nil =>
      intro path _ _
      rw [expandLines_nil]
      exact ⟨rfl, rfl⟩
  | @code via c k line rest indent es hr _ ih =>
      intro path hrefs hpath
      obtain ⟨hlist, hvalue⟩ :=
        ih path (fun l hl => hrefs l (List.mem_cons_of_mem _ hl)) hpath
      rw [expandLines_code hr, Pieces.list_prepend, Pieces.value_prepend, hlist]
      exact ⟨rfl, hvalue⟩
  | @reference via c k line rest indent ref chunk inner es hr hc _ _ ihin ih =>
      intro path hrefs hpath
      have href : t.Refers c ref.name := hrefs line List.mem_cons_self ref hr
      -- an open chunk leads to this one, so entering it again would close a cycle
      have hn : ref.name ∉ path.names := by
        intro hmem
        exact hac ref.name (TransGen.tail' (hpath ref.name hmem) href)
      have hopen : ∀ name ∈ path.names ++ [ref.name],
          ReflTransGen t.Refers name ref.name := by
        intro name hname
        rcases List.mem_append.mp hname with hold | hnew
        · exact (hpath name hold).tail href
        · rw [List.mem_singleton.mp hnew]
      have hinner := expand_run (d := d) hn hc
        (ihin ⟨path.names ++ [ref.name]⟩ (fun _ hl _ hr' => refers_of_mem hc hl hr') hopen)
      obtain ⟨hlist, hvalue⟩ :=
        ih path (fun l hl => hrefs l (List.mem_cons_of_mem _ hl)) hpath
      rw [expandLines_reference hr, Pieces.list_andThen, Pieces.value_andThen, hinner.1,
        hinner.2, List.flatMap_append]
      show _ ++ (t.expandLines d rest indent path).list = _ ∧
        (t.expandLines d rest indent path).value = _
      rw [hlist]
      exact ⟨rfl, hvalue⟩

/-- The run of a chunk on its own gives out the pieces of its trace and meets no
    open chunk. -/
theorem Trace.run (hac : t.Acyclic) {name : ChunkName} {es : List Emission}
    (h : t.Trace name es) (d : Directive) :
    (t.expansion d name).list = es.flatMap (Emission.pieces d) ∧
      (t.expansion d name).value = ⟨.empty, none⟩ := by
  obtain ⟨chunk, hc, hes⟩ := h
  refine expand_run List.not_mem_nil hc (hes.run hac _ ?_ ?_)
  · intro line hl ref hr
    exact refers_of_mem hc hl hr
  · intro n hn
    rw [List.mem_singleton.mp hn]

end ChunkTable

end Literate
