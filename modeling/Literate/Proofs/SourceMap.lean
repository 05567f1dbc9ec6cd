import Literate.Proofs.Document.Scanning
import Literate.Proofs.Expansion.Coverage

/-! # Directives lead back to the documents

    A directive is written from what the scanner noted when it took the line,
    and it is written much later, from deep inside an expansion.  Two facts about
    the halves meet here: every line of every chunk is written inside a block of
    its chunk, in one of the documents and at its line number
    (`Scan.sourced_run`), and every emission of an expansion is a line of the
    chunk it names, behind blanks (`Emits.way_of_mem`, `Trace.indent_blank`). -/

namespace Literate

/-- An emission behind blanks tells its directive the indentation of the line that
    it writes. -/
theorem Emission.text_eq {e : Emission} (h : e.indent.all isBlank = true)
    (d : Directive) :
    e.text d = d.format (Text.indent (e.indent ++ e.line.text))
      e.line.location.file.spelling e.line.location.line
        ++ e.indent ++ e.line.text ++ ['\n'] := by
  rw [Text.indent_append h]
  rfl

/-- What an expansion emits stands in the chunk that it names. -/
theorem ChunkTable.Trace.mem_linesOf {t : ChunkTable} {name : ChunkName}
    {es : List Emission} (h : t.Trace name es) :
    ∀ e ∈ es, e.line ∈ t.linesOf e.site.chunk := by
  intro e he
  obtain ⟨chunk, hc, hes⟩ := h
  obtain ⟨-, -, -, ⟨chunk', hc', hline, -⟩, -⟩ := hes.way_of_mem hc rfl e he
  rw [ChunkTable.linesOf_eq hc']
  exact List.mem_of_getElem? hline

/-- **Directives lead back.**  After a scan that did not fail and a check that found
    nothing, tangling any root under any directive writes one record for each
    emission of its trace: the directive, whose `%i` is the indentation of the
    line written behind it, and that line, blanks and the text of the emission.
    The document and the line number of the directive are where the text stands:
    the document was scanned, that line of it is the text, and it lies between
    the fences of a block of the chunk whose expansion emits it. -/
theorem directives_lead_back (read : Path → Except Fault Text) (root : Path) (book : Bool)
    {doc : Document} (hdoc : (Scan.run read root book).document = doc)
    (hscan : (Scan.run read root book).failure = none)
    (hv : doc.lattice.problems doc.chunks = []) (d : Directive) {r : ChunkName}
    (hr : r ∈ doc.lattice.roots) :
    ∃ es, doc.chunks.Trace r es ∧
      tangleText doc.chunks doc.lattice d r = .ok (es.flatMap fun e =>
        d.format (Text.indent (e.indent ++ e.line.text))
          e.line.location.file.spelling e.line.location.line
            ++ e.indent ++ e.line.text ++ ['\n']) ∧
      ∀ e ∈ es, e.indent.all isBlank = true ∧
        e.line.location.file ∈ doc.inputs ∧
        ∃ content first last, read e.line.location.file = .ok content ∧
          content.lines[e.line.location.line - 1]? = some e.line.text ∧
          Block content.lines e.site.chunk first last ∧
          first < e.line.location.line ∧ e.line.location.line < last := by
  subst hdoc
  have hsourced := Scan.sourced_run hscan
  obtain ⟨-, hac, hcl⟩ := Lattice.problems_eq_nil_iff.1 hv
  have hkey := (Lattice.mem_roots_ofTable.1 hr).1
  obtain ⟨es, hes⟩ := ChunkTable.exists_trace hac hcl hkey
  refine ⟨es, hes, ?_, ?_⟩
  · have htext := hes.tangleText_eq hac (hcl.mem_names_iff.2 hkey) d
    rw [Document.lattice, htext]
    congr 1
    refine List.flatMap_congr fun e he => ?_
    exact Emission.text_eq (hes.indent_blank e he) d
  · intro e he
    have hwritten := hsourced e.site.chunk e.line (hes.mem_linesOf e he)
    exact ⟨hes.indent_blank e he, hwritten.1, hwritten.2⟩

/-- A book of two documents: the chapter defines a chunk that the root refers to, and
    goes on with a chunk that the root began. -/
def shelf (p : Path) : Except Fault Text :=
  if p.spelling = ['b'] then .ok "[c](c.md)\n```a.x\nx\n  @\x7by\x7d\n```\n".toList
  else if p.spelling = ['c', '.', 'm', 'd'] then .ok "```y\n z\n```\n```a.x\nw\n```".toList
  else .error .noSuchFile

/-- What a scan of the book finds. -/
def shelved : Document :=
  (Scan.run shelf ⟨['b']⟩ true).document

theorem directives_of_shelf_lead_back :
    (Scan.run shelf ⟨['b']⟩ true).failure = none ∧
    shelved.lattice.problems shelved.chunks = [] ∧
    ⟨['a', '.', 'x']⟩ ∈ shelved.lattice.roots ∧
    ∃ es, shelved.chunks.Trace ⟨['a', '.', 'x']⟩ es ∧
      tangleText shelved.chunks shelved.lattice ⟨['%', 'f', ':', '%', 'l']⟩ ⟨['a', '.', 'x']⟩
        = .ok (es.flatMap fun e => e.line.location.file.spelling ++ [':']
            ++ Text.ofNat e.line.location.line ++ ['\n'] ++ e.indent ++ e.line.text ++ ['\n']) ∧
      ∀ e ∈ es, e.line.location.file ∈ shelved.inputs ∧
        e.line.Written shelf e.site.chunk := by
  have hscan : (Scan.run shelf ⟨['b']⟩ true).failure = none := by decide +kernel
  have hv : shelved.lattice.problems shelved.chunks = [] := by decide +kernel
  have hr : ⟨['a', '.', 'x']⟩ ∈ shelved.lattice.roots := by decide +kernel
  have hdoc : (Scan.run shelf ⟨['b']⟩ true).document = shelved := rfl
  obtain ⟨es, htrace, hout, hback⟩ := directives_lead_back shelf ⟨['b']⟩ true hdoc hscan hv
    ⟨['%', 'f', ':', '%', 'l']⟩ hr
  refine ⟨hscan, hv, hr, es, htrace, ?_, fun e he => (hback e he).2⟩
  rw [hout]
  simp [Directive.format, Directive.isEnabled, Directive.tokens, Directive.escape,
    Directive.value]

end Literate
