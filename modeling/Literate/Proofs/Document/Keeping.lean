import Literate.Proofs.Document.Pass
import Literate.Proofs.Text.Lines

/-! # The lines kept of a document

    What a scan records of a document it records under line numbers, and what it
    keeps of it is text.  So the numbers mean something only if the text kept,
    cut into lines once more, has the lines that were read, one for one.

    * A pass keeps the lines it reads, each with a line feed, and keeps nothing
      where there are none (`Document.markdown_foldl_step`).
    * Cut again, they are as many as before, and lose at most a carriage return
      each (`Text.lines_unlines`). -/

namespace Literate

namespace Document

theorem get?_markdown_record (d : Document) (s : Scanner) (line : Text) :
    (d.record s line).markdown.get? s.file = some (d.textOf s.file ++ (line ++ ['\n'])) := by
  rw [record_eq]
  show (d.markdown.alter s.file _).get? s.file = _
  rw [OrderedMap.get?_alter, if_pos BEq.rfl]
  rfl

/-- Behind a pass the text kept of a document goes on with the lines that were read. -/
theorem markdown_foldl_step (lines : List Text) (s : Scanner) (d : Document) :
    (lines.foldl Scanner.step (s, d)).2.markdown.get? s.file
      = if lines = [] then d.markdown.get? s.file
        else some (d.textOf s.file ++ Text.unlines lines) := by
  induction lines generalizing s d with
  | nil => rfl
  | cons line lines ih =>
      have hstep : Scanner.step (s, d) line = (s.next line, d.record s line) := rfl
      have ih := ih (s.next line) (d.record s line)
      rw [Scanner.next_file, textOf_record, if_pos BEq.rfl, get?_markdown_record] at ih
      rw [List.foldl_cons, hstep, ih, if_neg (List.cons_ne_nil _ _), Text.unlines_cons]
      by_cases hlines : lines = []
      · rw [if_pos hlines, hlines]
        rfl
      · rw [if_neg hlines, List.append_assoc, List.append_assoc]
        rfl

end Document

namespace Scanner

/-- What is kept of a document that nothing was kept of before. -/
theorem markdown_readContent {s : Scanner} {d : Document} (h : d.markdown.get? s.file = none)
    (content : Text) :
    (s.readContent d content).2.markdown.get? s.file
      = if content = [] then none else some (Text.unlines content.lines) := by
  have htext : d.textOf s.file = [] := by
    rw [Document.textOf, h]
    rfl
  have hkept := Document.markdown_foldl_step content.lines s d
  rw [htext, h, List.nil_append] at hkept
  simp only [Text.lines_eq_nil_iff] at hkept
  rw [← hkept, readContent]
  -- a warning leaves the text alone
  dsimp only
  split <;> rfl

/-- The text kept of a document has the lines that were read, less a carriage return at the end of
    each. -/
theorem lines_textOf_readContent {s : Scanner} {d : Document}
    (h : d.markdown.get? s.file = none) (content : Text) :
    (s.readContent d content).2.textOf s.file = Text.unlines content.lines ∧
      ((s.readContent d content).2.textOf s.file).lines
        = content.lines.map Text.withoutReturn := by
  have hkept : (s.readContent d content).2.textOf s.file = Text.unlines content.lines := by
    rw [Document.textOf, markdown_readContent h]
    split
    · next hnil => rw [hnil]; rfl
    · rfl
  refine ⟨hkept, ?_⟩
  rw [hkept, Text.lines_unlines fun _ => Text.newline_notMem_of_mem_lines]

/-- **Lines keep their numbers.**  Of a document that nothing was kept of before, nothing is kept
    exactly if it is empty.  What is kept has as many lines as were read, each the line
    with its number, or this line without the carriage return that it ends in.  It is
    the content as it was exactly if a line feed alone ends every line. -/
theorem lines_keep_their_numbers (s : Scanner) (d : Document) (h : d.markdown.get? s.file = none)
    (content : Text) :
    ((s.readContent d content).2.markdown.get? s.file = none ↔ content = []) ∧
    ((s.readContent d content).2.textOf s.file).lines.length = content.lines.length ∧
    (∀ (n : Nat) (line : Text), content.lines[n]? = some line →
      (line.getLast? ≠ some '\r' →
        ((s.readContent d content).2.textOf s.file).lines[n]? = some line) ∧
      ∀ shorter, line = shorter ++ ['\r'] →
        ((s.readContent d content).2.textOf s.file).lines[n]? = some shorter) ∧
    ((s.readContent d content).2.textOf s.file = content ↔
      content.Ended ∧ ¬ ['\r', '\n'] <:+: content) := by
  obtain ⟨hkept, hlines⟩ := lines_textOf_readContent h content
  refine ⟨?_, ?_, fun n line hline => ?_, ?_⟩
  · rw [markdown_readContent h]
    split
    · next hnil => exact iff_of_true rfl hnil
    · next hne => exact iff_of_false (Option.some_ne_none _) hne
  · rw [hlines, List.length_map]
  · rw [hlines, List.getElem?_map, hline, Option.map_some, Text.withoutReturn]
    constructor
    · intro hlast
      rw [if_neg hlast]
    · rintro shorter rfl
      rw [if_pos List.getLast?_concat, List.dropLast_concat]
  · rw [hkept]
    exact Text.unlines_lines_eq_iff

/-- Line ends of all kinds, and a carriage return at the very end. -/
def mixedEnds : Text :=
  ['a', '\r', '\n', 'b', '\r', '\r', '\n', '\n', 'c', '\r']

theorem mixedEnds_keep_their_numbers :
    Document.empty.markdown.get? (Scanner.start ⟨['f']⟩).file = none ∧
      mixedEnds.lines = [['a'], ['b', '\r'], [], ['c', '\r']] ∧
      (((start ⟨['f']⟩).readContent .empty mixedEnds).2.textOf ⟨['f']⟩).lines.length = 4 ∧
      (((start ⟨['f']⟩).readContent .empty mixedEnds).2.textOf ⟨['f']⟩).lines[1]? = some ['b'] ∧
      (((start ⟨['f']⟩).readContent .empty mixedEnds).2.textOf ⟨['f']⟩).lines[3]? = some ['c'] ∧
      ((start ⟨['f']⟩).readContent .empty mixedEnds).2.textOf ⟨['f']⟩ ≠ mixedEnds := by
  have hlines : mixedEnds.lines = [['a'], ['b', '\r'], [], ['c', '\r']] := by decide
  obtain ⟨-, hlength, hnumbers, hverbatim⟩ :=
    lines_keep_their_numbers (start ⟨['f']⟩) .empty rfl mixedEnds
  rw [hlines] at hlength hnumbers
  refine ⟨rfl, hlines, hlength, (hnumbers 1 _ rfl).2 ['b'] rfl, (hnumbers 3 _ rfl).2 ['c'] rfl, ?_⟩
  intro heq
  have hends := (hverbatim.mp heq).1
  revert hends
  unfold Text.Ended
  decide

end Scanner

end Literate
