import Literate.Proofs.Expansion.Indentation
import Literate.Proofs.Line.Reference
import Literate.Proofs.Path.Parent
import Literate.Proofs.SourceMap
import Literate.Proofs.Text.Lines

/-! # Nothing is left to expand

    What tangling writes is text, and text is what chunks are made of.  So it can
    be asked whether the result of an expansion would expand any further.

    * The rows of an expansion are lines that are no references, behind blanks
      (`LaysOut.text_is_code`, `LaysOut.plain`), and blanks do not make a reference of
      a line that is none (`Row.Plain.reference?_writtenAt`).
    * The lines of a scanned document have no line feed in them
      (`Scan.newlineFree_run`), so the lines of the text are the rows, and none of
      them falls apart into two, one of which might be a reference.
    * A table without references has nothing to fail at
      (`ChunkTable.problems_eq_nil_iff_of_no_references`), and its chunks are written
      line by line. -/

namespace Literate

/-- Lines with their line feeds are cut at the line feeds, and nothing is left behind the
    last. -/
theorem Text.splitOn_unlines {ls : List Text} (h : ∀ line ∈ ls, '\n' ∉ line) :
    Text.splitOn '\n' (Text.unlines ls) = ls ++ [[]] := by
  have hall : ∀ line ∈ ls ++ [[]], '\n' ∉ line := by
    intro line hline
    rcases List.mem_append.mp hline with hline | hline
    · exact h line hline
    · rw [List.mem_singleton.mp hline]
      exact List.not_mem_nil
  have hsplit := Text.splitOn_flatMap_append hall
  rw [List.append_nil] at hsplit
  exact hsplit

/-- Behind blanks, a row of code is no reference. -/
theorem Row.Plain.reference?_writtenAt {row : Row} (h : row.Plain)
    (hcode : Line.reference? row.text = none) {indent : Text}
    (hindent : indent.all isBlank = true) : Line.reference? (row.writtenAt indent) = none := by
  have hblank : (row.lead ++ indent).all isBlank = true := by
    rw [List.all_append, h.blank, hindent]
    rfl
  exact (Line.reference?_append_eq_none_iff hblank row.text).mpr hcode

theorem Row.Plain.newline_notMem_writtenAt {row : Row} (h : row.Plain) :
    '\n' ∉ row.writtenAt [] := by
  rw [Row.writtenAt, List.append_nil, List.mem_append, not_or]
  exact ⟨h.lead, h.text⟩

namespace ChunkTable

variable {t : ChunkTable}

/-- Only lines that are no references become rows. -/
theorem LaysOut.text_is_code {ahead : Ahead} {rows : List Row} (h : t.LaysOut ahead rows) :
    ∀ row ∈ rows, Line.reference? row.text = none := by
  induction h with
  | missing _ => intro row hrow; exact nomatch hrow
  | chunk _ _ ih => exact ih
  | nil => intro row hrow; exact nomatch hrow
  | code hr _ ih =>
      intro row hrow
      rcases List.mem_cons.mp hrow with rfl | hrow
      · exact hr
      · exact ih row hrow
  | reference _ _ _ ihin ih =>
      intro row hrow
      rcases List.mem_append.mp hrow with hrow | hrow
      · obtain ⟨inner, hinner, rfl⟩ := List.mem_map.mp hrow
        exact ihin inner hinner
      · exact ih row hrow

/-! ## Tables without references -/

theorem acyclic_of_no_references (h : ∀ a b, ¬ t.Refers a b) : t.Acyclic := by
  intro a hcycle
  obtain ⟨b, hab, -⟩ := Relation.TransGen.head'_iff.mp hcycle
  exact h a b hab

/-- Where nothing refers to anything, the check is about the names alone. -/
theorem problems_eq_nil_iff_of_no_references (h : ∀ a b, ¬ t.Refers a b) :
    (Lattice.ofTable t).problems t = [] ↔ ∀ name ∈ t.keys, name.isFilename = true := by
  rw [Lattice.problems_eq_nil_iff]
  constructor
  · rintro ⟨htops, -, -⟩ name hname
    exact htops name hname fun a => h a name
  · intro hfiles
    exact ⟨fun name hname _ => hfiles name hname, acyclic_of_no_references h,
      fun a b hab => absurd hab (h a b)⟩

/-- A single chunk without references. -/
theorem no_references_of_single {name : ChunkName} {chunk : Chunk}
    (ht : t.entries = [(name, chunk)])
    (h : ∀ text ∈ chunk.lines.map ChunkLine.text, Line.reference? text = none) (a b : ChunkName) :
    ¬ t.Refers a b := by
  rintro ⟨chunk', hchunk', line, hline, ref, href, -⟩
  have hentry := OrderedMap.get?_eq_some_iff.mp hchunk'
  rw [ht] at hentry
  obtain ⟨-, rfl⟩ := Prod.mk.inj (List.mem_singleton.mp hentry)
  have hnone := h line.text (List.mem_map_of_mem hline)
  rw [ChunkLine.reference?, hnone] at href
  cases href

/-- A single chunk without references passes the check if it is named like a file, and tangles to
    its lines in any case. -/
theorem tangleText_single {name : ChunkName} {chunk : Chunk} (ht : t.entries = [(name, chunk)])
    (h : ∀ text ∈ chunk.lines.map ChunkLine.text, Line.reference? text = none) :
    tangleText t (Lattice.ofTable t) .none name
        = .ok (Text.unlines (chunk.lines.map ChunkLine.text)) ∧
      ((Lattice.ofTable t).problems t = [] ↔ name.isFilename = true) := by
  have hno := no_references_of_single ht h
  have hkeys : t.keys = [name] := by
    rw [OrderedMap.keys, ht]
    rfl
  have hget : t.get? name = some chunk := by
    rw [OrderedMap.get?_eq_some_iff, ht]
    exact List.mem_cons_self
  constructor
  · have hname : name ∈ (Lattice.ofTable t).names := by
      rw [Lattice.mem_names_ofTable, hkeys]
      exact Or.inl List.mem_cons_self
    have htexts : (t.get? name).map (fun c => c.lines.map ChunkLine.text)
        = some (chunk.lines.map ChunkLine.text) := by
      rw [hget]
      rfl
    have hends := (acyclic_of_no_references hno).expand_succeeds (d := .none) name []
    rw [tangleText_of_no_cycle hname hends, text_expansion_of_code htexts h]
  · rw [problems_eq_nil_iff_of_no_references hno, hkeys]
    exact List.forall_mem_singleton

end ChunkTable

/-- The lines that a scan takes have no line feed in them. -/
theorem Scan.newlineFree_run {read : Path → Except Fault Text} {root : Path} {book : Bool}
    (h : (Scan.run read root book).failure = none) :
    (Scan.run read root book).document.chunks.NewlineFree := by
  rintro ⟨name, chunk⟩ hentry line hline
  have hlines := ChunkTable.linesOf_eq (OrderedMap.get?_eq_some_iff.mpr hentry)
  rw [← hlines] at hline
  obtain ⟨-, content, first, last, -, htext, -⟩ := Scan.sourced_run h name line hline
  exact Text.newline_notMem_of_mem_lines (List.mem_of_getElem? htext)

/-- **Nothing is left to expand.**  After a scan that did not fail and a check that found
    nothing, tangling any name of the lattice without a directive gives a text that
    is cut into lines at its line feeds, and none of them is a reference.
    A table that has these lines for its only chunk tangles to the same text,
    and passes the check if the chunk is named like a file. -/
theorem tangling_leaves_nothing_to_expand (read : Path → Except Fault Text) (root : Path)
    (book : Bool) {doc : Document} (hdoc : (Scan.run read root book).document = doc)
    (hscan : (Scan.run read root book).failure = none)
    (hv : doc.lattice.problems doc.chunks = []) {name : ChunkName}
    (hname : name ∈ doc.lattice.names) :
    ∃ (out : Text) (lines : List Text),
      tangleText doc.chunks doc.lattice .none name = .ok out ∧
      out.splitOn '\n' = lines ++ [[]] ∧
      (∀ line ∈ out.splitOn '\n', Line.reference? line = none) ∧
      ∀ (t : ChunkTable) (alone : ChunkName) (chunk : Chunk), t.entries = [(alone, chunk)] →
        chunk.lines.map ChunkLine.text = lines →
        tangleText t (Lattice.ofTable t) .none alone = .ok out ∧
        ((Lattice.ofTable t).problems t = [] ↔ alone.isFilename = true) := by
  subst hdoc
  obtain ⟨-, hac, -⟩ := Lattice.problems_eq_nil_iff.mp hv
  obtain ⟨rows, hrows⟩ := hac.exists_laysOut name
  have hplain := hrows.plain (Scan.newlineFree_run hscan) (fun ls hls => nomatch hls)
  -- at no indentation, the rows are the lines of the text
  have hcode : ∀ line ∈ rows.map (Row.writtenAt []), Line.reference? line = none := by
    intro line hline
    obtain ⟨row, hrow, rfl⟩ := List.mem_map.mp hline
    exact (hplain row hrow).reference?_writtenAt (hrows.text_is_code row hrow) rfl
  have hsplit : Text.splitOn '\n' (Text.unlines (rows.map (Row.writtenAt [])))
      = rows.map (Row.writtenAt []) ++ [[]] := by
    refine Text.splitOn_unlines fun line hline => ?_
    obtain ⟨row, hrow, rfl⟩ := List.mem_map.mp hline
    exact (hplain row hrow).newline_notMem_writtenAt
  refine ⟨_, rows.map (Row.writtenAt []), ?_, hsplit, ?_, ?_⟩
  · rw [ChunkTable.tangleText_of_no_cycle hname (hac.expand_succeeds name [])]
    exact congrArg Except.ok (hrows.text_expand hac [])
  · intro line hline
    rw [hsplit] at hline
    rcases List.mem_append.mp hline with hline | hline
    · exact hcode line hline
    · rw [List.mem_singleton.mp hline]
      rfl
  · intro t alone chunk ht hlines
    rw [← hlines] at hcode ⊢
    exact ChunkTable.tangleText_single ht hcode

/-- Lines as the only chunk of a table. -/
def tableOfLines (name : ChunkName) (lines : List Text) : ChunkTable :=
  ⟨[(name, ⟨[], lines.map fun text => ⟨⟨⟨['f']⟩, 1⟩, text⟩⟩)], List.pairwise_singleton _ _⟩

/-- The file of the book on the shelf, tangled once more under another name. -/
theorem nothing_is_left_of_shelf :
    (Scan.run shelf ⟨['b']⟩ true).failure = none ∧
    shelved.lattice.problems shelved.chunks = [] ∧
    ⟨['a', '.', 'x']⟩ ∈ shelved.lattice.names ∧
    ∃ (out : Text) (lines : List Text),
      tangleText shelved.chunks shelved.lattice .none ⟨['a', '.', 'x']⟩ = .ok out ∧
      out.splitOn '\n' = lines ++ [[]] ∧
      (∀ line ∈ out.splitOn '\n', Line.reference? line = none) ∧
      (Lattice.ofTable (tableOfLines ⟨['o', '.', 'x']⟩ lines)).problems
        (tableOfLines ⟨['o', '.', 'x']⟩ lines) = [] ∧
      tangleText (tableOfLines ⟨['o', '.', 'x']⟩ lines)
        (Lattice.ofTable (tableOfLines ⟨['o', '.', 'x']⟩ lines)) .none ⟨['o', '.', 'x']⟩
          = .ok out := by
  have hscan : (Scan.run shelf ⟨['b']⟩ true).failure = none := by decide +kernel
  have hv : shelved.lattice.problems shelved.chunks = [] := by decide +kernel
  have hname : ⟨['a', '.', 'x']⟩ ∈ shelved.lattice.names := by decide +kernel
  obtain ⟨out, lines, hout, hlines, hcode, hagain⟩ :=
    tangling_leaves_nothing_to_expand shelf ⟨['b']⟩ true rfl hscan hv hname
  have htexts : (lines.map fun text => (⟨⟨⟨['f']⟩, 1⟩, text⟩ : ChunkLine)).map ChunkLine.text
      = lines := by
    rw [List.map_map]
    exact List.map_id lines
  obtain ⟨htext, hpasses⟩ := hagain (tableOfLines ⟨['o', '.', 'x']⟩ lines) _ _ rfl htexts
  exact ⟨hscan, hv, hname, out, lines, hout, hlines, hcode, hpasses.mpr (by decide), htext⟩

end Literate
