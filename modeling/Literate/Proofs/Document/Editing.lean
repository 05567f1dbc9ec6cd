import Literate.Proofs.Document.Discovery
import Literate.Proofs.Expansion.Presentation

/-! # Moving blocks and editing prose

    What a table holds depends on the blocks of the documents, and on their order
    only as far as blocks of one name go.  So a block can move past blocks of
    other names (`Moves`), within a document or from one to the next.

    * An edit of a document (`Edit`) changes prose and headings, or moves a whole
      block.  It moves the blocks (`Edit.moves`), and the document still ends
      where it did, outside of blocks or inside the same one (`Edit.inside_iff`).
    * So edited documents are scanned as before, with their blocks moved
      (`Scan.Edited.run`), as long as a book links to the same chapters.
    * Two scans whose blocks differ by moves have tables with the same texts
      (`Scan.sameTexts_of_moves`). -/

namespace Literate

/-! ## Moving blocks -/

/-- A block moves past the next one, which has another name. -/
inductive Swap : List CodeBlock → List CodeBlock → Prop where
  | mk {a b : CodeBlock} (before after : List CodeBlock) : a.name ≠ b.name →
      Swap (before ++ a :: b :: after) (before ++ b :: a :: after)

/-- Blocks move past blocks of other names. -/
def Moves : List CodeBlock → List CodeBlock → Prop :=
  Relation.ReflTransGen Swap

/-- A move leaves the blocks of each name in their order. -/
theorem Swap.filter_eq {bs bs' : List CodeBlock} (h : Swap bs bs') (x : ChunkName) :
    bs.filter (·.name = x) = bs'.filter (·.name = x) := by
  obtain ⟨before, after, hab⟩ := h
  rename_i a b
  rw [List.filter_append, List.filter_append]
  congr 1
  by_cases ha : a.name = x
  · have hb : b.name ≠ x := fun hb => hab (ha.trans hb.symm)
    simp [ha, hb]
  · simp [List.filter_cons, ha]

theorem Moves.filter_eq {bs bs' : List CodeBlock} (h : Moves bs bs') (x : ChunkName) :
    bs.filter (·.name = x) = bs'.filter (·.name = x) := by
  induction h with
  | refl => rfl
  | tail _ hswap ih => rw [ih, hswap.filter_eq x]

theorem Moves.mem_names_iff {bs bs' : List CodeBlock} (h : Moves bs bs') {x : ChunkName} :
    x ∈ bs.map CodeBlock.name ↔ x ∈ bs'.map CodeBlock.name := by
  have hfilter : ∀ bs : List CodeBlock,
      x ∈ bs.map CodeBlock.name ↔ bs.filter (·.name = x) ≠ [] := by
    intro bs
    rw [Ne, List.filter_eq_nil_iff]
    simp
  rw [hfilter, hfilter, h.filter_eq]

theorem Swap.append_left {bs bs' : List CodeBlock} (h : Swap bs bs') (more : List CodeBlock) :
    Swap (more ++ bs) (more ++ bs') := by
  obtain ⟨before, after, hab⟩ := h
  rw [← List.append_assoc, ← List.append_assoc]
  exact Swap.mk (more ++ before) after hab

theorem Swap.append_right {bs bs' : List CodeBlock} (h : Swap bs bs') (more : List CodeBlock) :
    Swap (bs ++ more) (bs' ++ more) := by
  obtain ⟨before, after, hab⟩ := h
  rw [List.append_assoc, List.append_assoc]
  exact Swap.mk before (after ++ more) hab

theorem Moves.append {as as' bs bs' : List CodeBlock} (ha : Moves as as') (hb : Moves bs bs') :
    Moves (as ++ bs) (as' ++ bs') :=
  (ha.lift (· ++ bs) fun _ _ h => h.append_right bs).trans
    (hb.lift (as' ++ ·) fun _ _ h => h.append_left as')

/-! ## Editing documents -/

/-- The lines of a whole block: a fence that opens it under the name, and its lines up to the
    fence that closes it. -/
def Whole (name : ChunkName) (lines : List Text) : Prop :=
  ∃ opening inside, lines = opening :: inside ++ [fence] ∧
    Line.fenceOpen? opening = some name ∧ fence ∉ inside

/-- An edit of a document that leaves its blocks whole: lines of prose and headings are put in
    the place of others, or a block is moved past the next one, which has another name.
    A block moves past prose by two edits of prose. -/
inductive Edit : List Text → List Text → Prop where
  | prose {before : List Text} (old new after : List Text) : Outside before →
      (∀ line ∈ old, Line.fenceOpen? line = none) → (∀ line ∈ new, Line.fenceOpen? line = none) →
      Edit (before ++ (old ++ after)) (before ++ (new ++ after))
  | move {before block block' : List Text} {name name' : ChunkName} (after : List Text) :
      Outside before → Whole name block → Whole name' block' → name ≠ name' →
      Edit (before ++ (block ++ (block' ++ after))) (before ++ (block' ++ (block ++ after)))

theorem codeBlocks_append {before : List Text} (h : Outside before) (rest : List Text) :
    codeBlocks (before ++ rest) = codeBlocks before ++ codeBlocks rest := by
  rw [codeBlocks, passages_append h, List.filterMap_append]
  rfl

/-- Lines that open no block add none. -/
theorem codeBlocks_prose {prose : List Text} (h : ∀ line ∈ prose, Line.fenceOpen? line = none)
    (rest : List Text) : codeBlocks (prose ++ rest) = codeBlocks rest := by
  induction prose with
  | nil => rfl
  | cons line prose ih =>
      rw [List.forall_mem_cons] at h
      rw [List.cons_append, codeBlocks, passages_prose h.1]
      exact ih h.2

/-- A whole block adds itself. -/
theorem Whole.exists_code {name : ChunkName} {block : List Text} (h : Whole name block) :
    ∃ code : CodeBlock, code.name = name ∧
      ∀ rest, codeBlocks (block ++ rest) = code :: codeBlocks rest := by
  obtain ⟨opening, inside, rfl, hopen, hno⟩ := h
  refine ⟨⟨name, inside⟩, rfl, fun rest => ?_⟩
  rw [codeBlocks, passages_block hopen hno]
  rfl

/-- An edit moves the blocks of a document, or leaves them as they are. -/
theorem Edit.moves {lines lines' : List Text} (h : Edit lines lines') :
    Moves (codeBlocks lines) (codeBlocks lines') := by
  cases h with
  | prose old new after hbefore hold hnew =>
      rw [codeBlocks_append hbefore, codeBlocks_append hbefore, codeBlocks_prose hold,
        codeBlocks_prose hnew]
      exact Relation.ReflTransGen.refl
  | move after hbefore hblock hblock' hne =>
      obtain ⟨code, rfl, hcode⟩ := hblock.exists_code
      obtain ⟨code', rfl, hcode'⟩ := hblock'.exists_code
      rw [codeBlocks_append hbefore, codeBlocks_append hbefore, hcode, hcode', hcode', hcode]
      exact Relation.ReflTransGen.single (Swap.mk _ _ hne)

theorem Outside.append {before lines : List Text} (h : Outside before) (hlines : Outside lines) :
    Outside (before ++ lines) := by
  induction hlines with
  | nil => rw [List.append_nil]; exact h
  | prose _ hline ih =>
      rw [← List.append_assoc]
      exact Outside.prose ih hline
  | block _ hopen hno ih =>
      rw [List.append_assoc _ _ [fence], ← List.append_assoc, ← List.append_assoc _ _ [fence]]
      exact Outside.block ih hopen hno

theorem Outside.append_prose {before prose : List Text} (h : Outside before)
    (hprose : ∀ line ∈ prose, Line.fenceOpen? line = none) : Outside (before ++ prose) := by
  induction prose generalizing before with
  | nil => rw [List.append_nil]; exact h
  | cons line prose ih =>
      rw [List.forall_mem_cons] at hprose
      rw [List.append_cons]
      exact ih (Outside.prose h hprose.1) hprose.2

theorem Whole.outside {name : ChunkName} {block : List Text} (h : Whole name block) :
    Outside block := by
  obtain ⟨opening, inside, rfl, hopen, hno⟩ := h
  exact Outside.block Outside.nil hopen hno

/-- Where a document ends does not depend on the lines before that end outside of blocks. -/
theorem Outside.inside_append_iff {before rest : List Text} (h : Outside before)
    {name : ChunkName} : Inside (before ++ rest) name ↔ Inside rest name := by
  have hgrow : ∀ name, Inside rest name → Inside (before ++ rest) name := by
    rintro name ⟨above, opening, inside, rfl, habove, hopen, hno⟩
    exact ⟨before ++ above, opening, inside, (List.append_assoc _ _ _).symm, h.append habove,
      hopen, hno⟩
  refine ⟨fun hinside => ?_, hgrow name⟩
  -- the rest ends outside of blocks, or inside one, and then in that of the name
  have hstart := Scanner.at_startFile (.start ⟨[]⟩) ⟨[]⟩ false
  have hopened := Scanner.chunk_of_inside hstart hinside
  have hat : Scanner.At rest _ := hstart.foldl_next rest
  cases hin : (rest.foldl Scanner.next (Scanner.startFile (.start ⟨[]⟩) ⟨[]⟩ false)).inChunk with
  | false =>
      have houtside := Scanner.inChunk_of_outside hstart (h.append (hat.outside hin))
      rw [hopened.1] at houtside
      cases houtside
  | true =>
      have hrest := hat.inside hin
      rw [← hopened.2, (Scanner.chunk_of_inside hstart (hgrow _ hrest)).2]
      exact hrest

/-- An edit does not change in which block a document ends. -/
theorem Edit.inside_iff {lines lines' : List Text} (h : Edit lines lines') {name : ChunkName} :
    Inside lines name ↔ Inside lines' name := by
  cases h with
  | prose old new after hbefore hold hnew =>
      rw [← List.append_assoc, ← List.append_assoc,
        (hbefore.append_prose hold).inside_append_iff,
        (hbefore.append_prose hnew).inside_append_iff]
  | move after hbefore hblock hblock' _ =>
      rw [hbefore.inside_append_iff, hbefore.inside_append_iff, hblock.outside.inside_append_iff,
        hblock'.outside.inside_append_iff, hblock'.outside.inside_append_iff,
        hblock.outside.inside_append_iff]

/-- Edits of a document. -/
def Edits : List Text → List Text → Prop :=
  Relation.ReflTransGen Edit

theorem Edits.moves {lines lines' : List Text} (h : Edits lines lines') :
    Moves (codeBlocks lines) (codeBlocks lines') := by
  induction h with
  | refl => exact Relation.ReflTransGen.refl
  | tail _ hedit ih => exact ih.trans hedit.moves

theorem Edits.inside_iff {lines lines' : List Text} (h : Edits lines lines') {name : ChunkName} :
    Inside lines name ↔ Inside lines' name := by
  induction h with
  | refl => exact Iff.rfl
  | tail _ hedit ih => exact ih.trans hedit.inside_iff

/-- The document is there on both sides, edited on the second. -/
def EditedAt (read read' : Path → Except Fault Text) (f : Path) : Prop :=
  ∃ content content', read f = .ok content ∧ read' f = .ok content' ∧
    Edits content.lines content'.lines

/-- An edited document breaks a run in the same way. -/
theorem EditedAt.breaks_iff {read read' : Path → Except Fault Text} {f : Path}
    (h : EditedAt read read' f) : (∃ e, Breaks read f e) ↔ ∃ e, Breaks read' f e := by
  obtain ⟨content, content', hread, hread', hedits⟩ := h
  have hbreaks : ∀ {read : Path → Except Fault Text} {content : Text}, read f = .ok content →
      ((∃ e, Breaks read f e) ↔ ∃ name, Inside content.lines name) := by
    intro read content hread
    constructor
    · rintro ⟨e, hunreadable | ⟨hok, hinside⟩⟩
      · cases hread.symm.trans hunreadable
      · cases hread.symm.trans hok
        exact ⟨_, hinside⟩
    · rintro ⟨name, hinside⟩
      exact ⟨_, Breaks.unclosed hread hinside⟩
  rw [hbreaks hread, hbreaks hread']
  exact exists_congr fun name => hedits.inside_iff

/-! ## Scans with the same blocks -/

/-- Tables with the same keys have the same texts if they have the same lines, up to places. -/
theorem ChunkTable.SameTexts.of_linesOf {t t' : ChunkTable}
    (hkeys : ∀ name, name ∈ t.keys ↔ name ∈ t'.keys)
    (hlines : ∀ name, (t.linesOf name).map ChunkLine.text = (t'.linesOf name).map ChunkLine.text) :
    t.SameTexts t' := by
  intro name
  have hkeys := hkeys name
  have hlines := hlines name
  cases hchunk : t.get? name with
  | none =>
      have hno : name ∉ t'.keys := fun h => OrderedMap.get?_eq_none_iff.mp hchunk (hkeys.mpr h)
      rw [OrderedMap.get?_eq_none_iff.mpr hno]
  | some chunk =>
      obtain ⟨chunk', hchunk'⟩ := OrderedMap.mem_keys_iff.mp
        (hkeys.mp (OrderedMap.mem_keys_iff.mpr ⟨chunk, hchunk⟩))
      rw [linesOf_eq hchunk, linesOf_eq hchunk'] at hlines
      rw [hchunk', Option.map_some, Option.map_some, hlines]

namespace Scan

variable {read read' : Path → Except Fault Text} {root root' : Path} {book book' : Bool}

/-- Edits of documents move their blocks. -/
theorem moves_of_edited {inputs : List Path} (h : ∀ f ∈ inputs, EditedAt read read' f) :
    Moves (blocksOf read inputs) (blocksOf read' inputs) := by
  induction inputs with
  | nil => exact Relation.ReflTransGen.refl
  | cons f inputs ih =>
      rw [List.forall_mem_cons] at h
      obtain ⟨content, content', hread, hread', hedits⟩ := h.1
      rw [blocksOf, blocksOf, List.flatMap_cons, List.flatMap_cons, hread, hread']
      exact hedits.moves.append (ih h.2)

/-- The documents that a run finds are edited, and a book still finds the same chapters. -/
structure Edited (read read' : Path → Except Fault Text) (root : Path) (book : Bool) : Prop where
  edited : ∀ f ∈ found read root book, EditedAt read read' f
  chapters : book = true → found read' root true = found read root true

/-- Without chapters, there is the root alone. -/
theorem Edited.found_eq (h : Edited read read' root book) :
    found read' root book = found read root book := by
  cases book with
  | true => exact h.chapters rfl
  | false =>
      have hroot : ∀ read : Path → Except Fault Text, found read root false = [root.normalize] := by
        intro read
        rw [found]
        cases read root.normalize <;> rfl
      rw [hroot, hroot]

/-- Edits neither end a scan nor keep it from ending, and they move the blocks that it meets. -/
theorem Edited.run (h : Edited read read' root book) :
    ((Scan.run read root book).failure = none ↔ (Scan.run read' root book).failure = none) ∧
      Moves (blocksOf read (Scan.run read root book).document.inputs)
        (blocksOf read' (Scan.run read' root book).document.inputs) := by
  rw [failure_eq_none_iff, failure_eq_none_iff, inputs_eq_found, inputs_eq_found, h.found_eq]
  refine ⟨forall₂_congr fun f hf => ?_, moves_of_edited h.edited⟩
  rw [← not_exists, ← not_exists, (h.edited f hf).breaks_iff]

/-- **The blocks of two scans decide.**  If they differ by moves past blocks of other names, the
    tables of the scans have the same texts. -/
theorem sameTexts_of_moves (hok : (run read root book).failure = none)
    (hok' : (run read' root' book').failure = none)
    (h : Moves (blocksOf read (run read root book).document.inputs)
      (blocksOf read' (run read' root' book').document.inputs)) :
    (run read root book).document.chunks.SameTexts (run read' root' book').document.chunks := by
  refine .of_linesOf (fun name => ?_) fun name => ?_
  · rw [mem_keys_run hok, mem_keys_run hok', h.mem_names_iff]
  · obtain ⟨-, ps, hfiles, hps⟩ := passed_run hok
    obtain ⟨-, ps', hfiles', hps'⟩ := passed_run hok'
    rw [hps.map_text_linesOf, hps'.map_text_linesOf, hfiles, hfiles', h.filter_eq]

end Scan

end Literate
