import Literate.Proofs.Expansion.Reentry

/-! # Tangling depends on the texts alone

    A table also says in what order its names were met, where its chunks are
    defined and where each line was read.  Two tables that agree on their names
    and on the texts under them may differ in all of that (`ChunkTable.SameTexts`).

    * Whether a line is a reference is read off its text, so the two tables have
      the same references (`SameTexts.refers_eq`).  The conditions of the check
      are about these, and so is what a root is.
    * Their lattices list names and children in different orders, and the
      searches in them go different ways.  No such search has a part in an
      expansion: rule by rule, what the one table gives out the other gives out
      too (`SameTexts.unfolds`), if no directive shows where a line was read. -/

namespace Literate

open Relation

namespace ChunkTable

/-- The same names, and under each name the same texts. -/
def SameTexts (t t' : ChunkTable) : Prop :=
  ∀ name, (t.get? name).map (fun c => c.lines.map ChunkLine.text)
    = (t'.get? name).map (fun c => c.lines.map ChunkLine.text)

namespace SameTexts

variable {t t' : ChunkTable}

theorem symm (h : t.SameTexts t') : t'.SameTexts t :=
  fun name => (h name).symm

theorem get?_eq_none (h : t.SameTexts t') {name : ChunkName} (hnone : t.get? name = none) :
    t'.get? name = none := by
  have hname := h name
  rw [hnone] at hname
  exact Option.map_eq_none_iff.mp hname.symm

theorem exists_chunk (h : t.SameTexts t') {name : ChunkName} {chunk : Chunk}
    (hchunk : t.get? name = some chunk) :
    ∃ chunk', t'.get? name = some chunk' ∧
      chunk'.lines.map ChunkLine.text = chunk.lines.map ChunkLine.text := by
  have hname := h name
  rw [hchunk] at hname
  exact Option.map_eq_some_iff.mp hname.symm

/-! ## The check -/

theorem mem_keys_iff (h : t.SameTexts t') {name : ChunkName} : name ∈ t.keys ↔ name ∈ t'.keys := by
  have himp : ∀ {t t' : ChunkTable}, t.SameTexts t' → name ∈ t.keys → name ∈ t'.keys := by
    intro t t' h hname
    obtain ⟨chunk, hchunk⟩ := OrderedMap.mem_keys_iff.mp hname
    obtain ⟨chunk', hchunk', -⟩ := h.exists_chunk hchunk
    exact OrderedMap.mem_keys_iff.mpr ⟨chunk', hchunk'⟩
  exact ⟨himp h, himp h.symm⟩

theorem refers (h : t.SameTexts t') {a b : ChunkName} (hab : t.Refers a b) : t'.Refers a b := by
  obtain ⟨chunk, hchunk, line, hline, ref, href, hname⟩ := hab
  obtain ⟨chunk', hchunk', htexts⟩ := h.exists_chunk hchunk
  have hmem : line.text ∈ chunk'.lines.map ChunkLine.text := by
    rw [htexts]
    exact List.mem_map_of_mem hline
  obtain ⟨line', hline', hsame⟩ := List.mem_map.mp hmem
  refine ⟨chunk', hchunk', line', hline', ref, ?_, hname⟩
  rw [ChunkLine.reference?, hsame]
  exact href

/-- The same texts have the same references. -/
theorem refers_eq (h : t.SameTexts t') : t.Refers = t'.Refers := by
  funext a b
  exact propext ⟨h.refers, h.symm.refers⟩

theorem problems_eq_nil_iff (h : t.SameTexts t') :
    (Lattice.ofTable t).problems t = [] ↔ (Lattice.ofTable t').problems t' = [] := by
  rw [Lattice.problems_eq_nil_iff, Lattice.problems_eq_nil_iff]
  simp only [TopsAreFiles, Acyclic, Closed, h.refers_eq, h.mem_keys_iff]

theorem mem_roots_iff (h : t.SameTexts t') {name : ChunkName} :
    name ∈ (Lattice.ofTable t).roots ↔ name ∈ (Lattice.ofTable t').roots := by
  rw [Lattice.mem_roots_ofTable, Lattice.mem_roots_ofTable, h.refers_eq, h.mem_keys_iff]

theorem mem_names_iff (h : t.SameTexts t') {name : ChunkName} :
    name ∈ (Lattice.ofTable t).names ↔ name ∈ (Lattice.ofTable t').names := by
  rw [Lattice.mem_names_ofTable, Lattice.mem_names_ofTable, h.refers_eq, h.mem_keys_iff]

end SameTexts

/-! ## Expansions -/

/-- The same chunk ahead, or lines with the same texts. -/
inductive SameAhead : Ahead → Ahead → Prop where
  | chunk (name : ChunkName) : SameAhead (.chunk name) (.chunk name)
  | lines {ls ls' : List ChunkLine} :
      ls.map ChunkLine.text = ls'.map ChunkLine.text → SameAhead (.lines ls) (.lines ls')

/-- Without a directive, the pieces of a line show its text alone. -/
theorem pieces_none {line line' : ChunkLine} (h : line.text = line'.text) (indent : Text) :
    line.pieces .none indent = line'.pieces .none indent := by
  rw [ChunkLine.pieces, ChunkLine.pieces, h]
  rfl

/-- What is ahead of a line is ahead of a line with the same text. -/
theorem exists_of_lines_cons {line : ChunkLine} {rest : List ChunkLine} {ahead : Ahead}
    (h : SameAhead (.lines (line :: rest)) ahead) :
    ∃ line' rest', ahead = .lines (line' :: rest') ∧ line.text = line'.text ∧
      line'.reference? = line.reference? ∧ SameAhead (.lines rest) (.lines rest') := by
  cases h with
  | lines htexts =>
      obtain ⟨line', rest', rfl, hline, hrest⟩ := List.map_eq_cons_iff.mp htexts.symm
      refine ⟨line', rest', rfl, hline.symm, ?_, SameAhead.lines hrest.symm⟩
      rw [ChunkLine.reference?, ChunkLine.reference?, hline]

variable {t t' : ChunkTable}

/-- **Expansions follow the texts.**  By whatever rules one table unfolds what is ahead, a table
    with the same texts unfolds it too, with the same pieces and the same end. -/
theorem SameTexts.unfolds (h : t.SameTexts t') {ahead ahead' : Ahead} {indent : Text}
    {path : OpenPath} {out : List Text} {e : Ending} (hsame : SameAhead ahead ahead')
    (hunfolds : t.Unfolds .none ahead indent path out e) :
    t'.Unfolds .none ahead' indent path out e := by
  induction hunfolds generalizing ahead' with
  | reentered hn =>
      cases hsame
      exact Unfolds.reentered hn
  | missing hn hnone =>
      cases hsame
      exact Unfolds.missing hn (h.get?_eq_none hnone)
  | chunk hn hchunk _ ih =>
      cases hsame
      obtain ⟨chunk', hchunk', htexts⟩ := h.exists_chunk hchunk
      exact Unfolds.chunk hn hchunk' (ih (SameAhead.lines htexts.symm))
  | chunkFails hn hchunk _ ih =>
      cases hsame
      obtain ⟨chunk', hchunk', htexts⟩ := h.exists_chunk hchunk
      exact Unfolds.chunkFails hn hchunk' (ih (SameAhead.lines htexts.symm))
  | nil =>
      cases hsame with
      | lines htexts =>
          rw [List.map_eq_nil_iff.mp htexts.symm]
          exact Unfolds.nil
  | code hcode _ ih =>
      obtain ⟨line', rest', rfl, htext, href, hrest⟩ := exists_of_lines_cons hsame
      rw [pieces_none htext]
      exact Unfolds.code (href.trans hcode) (ih hrest)
  | reference hr _ _ ihin ih =>
      obtain ⟨line', rest', rfl, -, href, hrest⟩ := exists_of_lines_cons hsame
      exact Unfolds.reference (href.trans hr) (ihin (SameAhead.chunk _)) (ih hrest)
  | referenceFails hr _ ihin =>
      obtain ⟨line', rest', rfl, -, href, -⟩ := exists_of_lines_cons hsame
      exact Unfolds.referenceFails (href.trans hr) (ihin (SameAhead.chunk _))

/-- So both tables expand a name to the same pieces, and with the same end. -/
theorem SameTexts.expansion_eq (h : t.SameTexts t') (name : ChunkName) :
    (t.expansion .none name).list = (t'.expansion .none name).list ∧
      (t.expansion .none name).value = (t'.expansion .none name).value :=
  (h.unfolds (SameAhead.chunk name) (unfolds_expand name [] .empty)).unique
    (unfolds_expand name [] .empty)

/-- And tangling gives the same text, or fails in the same way. -/
theorem SameTexts.tangleText_eq (h : t.SameTexts t') (name : ChunkName) :
    tangleText t (Lattice.ofTable t) .none name
      = tangleText t' (Lattice.ofTable t') .none name := by
  obtain ⟨hlist, hvalue⟩ := h.expansion_eq name
  have hnames : (Lattice.ofTable t).names.contains name
      = (Lattice.ofTable t').names.contains name := by
    rw [Bool.eq_iff_iff, List.contains_iff_mem, List.contains_iff_mem, h.mem_names_iff]
  rw [tangleText, tangleText, hnames, Pieces.collect_eq, Pieces.collect_eq, hlist, hvalue]

/-! ## Chunks without references -/

/-- Without a directive, the pieces of a line make up the line behind its indentation. -/
theorem flatten_pieces_none (line : ChunkLine) (indent : Text) :
    (line.pieces .none indent).flatten = indent ++ line.text ++ ['\n'] := by
  simp [ChunkLine.pieces, Directive.format, show Directive.none.isEnabled = false from rfl]

/-- Lines without references are given out one after the other. -/
theorem unfolds_code {lines : List ChunkLine} (h : ∀ line ∈ lines, line.reference? = none)
    (d : Directive) (indent : Text) (path : OpenPath) :
    t.Unfolds d (.lines lines) indent path (lines.flatMap (ChunkLine.pieces d indent))
      ⟨path, none⟩ := by
  induction lines with
  | nil => exact Unfolds.nil
  | cons line lines ih =>
      rw [List.forall_mem_cons] at h
      exact Unfolds.code h.1 (ih h.2)

/-- A chunk whose lines are no references is written line by line. -/
theorem text_expansion_of_code {name : ChunkName} {texts : List Text}
    (hname : (t.get? name).map (fun c => c.lines.map ChunkLine.text) = some texts)
    (h : ∀ text ∈ texts, Line.reference? text = none) :
    (t.expansion .none name).text = Text.unlines texts := by
  obtain ⟨chunk, hchunk, rfl⟩ := Option.map_eq_some_iff.mp hname
  have hcode : ∀ line ∈ chunk.lines, line.reference? = none :=
    fun line hline => h _ (List.mem_map_of_mem hline)
  have hunfolds := Unfolds.chunk (List.not_mem_nil (a := name)) hchunk
    (unfolds_code hcode .none [] ⟨[] ++ [name]⟩)
  have hlist : (t.expansion .none name).list = _ :=
    ((unfolds_expand name [] .empty).unique hunfolds).1
  rw [Pieces.text, hlist, ← List.flatMap_id, List.flatMap_assoc, Text.unlines, List.flatMap_map]
  refine List.flatMap_congr fun line _ => ?_
  rw [List.flatMap_id, flatten_pieces_none, List.nil_append]

end ChunkTable

end Literate
