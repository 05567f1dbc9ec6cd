import Literate.Proofs.Document.Passages
import Literate.Proofs.Expansion.Coverage
import Literate.Proofs.Lattice.Top
import Literate.Proofs.Page.Replay
import Literate.Proofs.SourceMap

/-! # The language of a fence

    A page tags the fence that opens a chunk with the language of a file, and
    that file is looked for by a climb through first parents, which may go past
    many others that hold the chunk as well.

    In a lattice that passed its check the climb ends at a root
    (`Lattice.topOf_mem_roots`), the root leads down to the chunk again
    (`Lattice.reflTransGen_topOf`), and what a root leads to is in what it
    expands to (`ChunkTable.Expands.exists_inner`). -/

namespace Literate

open Relation

namespace ChunkTable

variable {t : ChunkTable}

/-- In a table that passed the check the name at the top of a chunk is a file, and what
    tangling the file gives has the expansion of the chunk in it. -/
theorem holds_topOf (hv : (Lattice.ofTable t).problems t = []) {name : ChunkName}
    (hname : name ∈ t.keys) :
    (Lattice.ofTable t).topOf name ∈ (Lattice.ofTable t).roots ∧
      ((Lattice.ofTable t).topOf name).isFilename = true ∧
      ∀ d : Directive, ∃ before inner after indent : Text,
        tangleText t (Lattice.ofTable t) d ((Lattice.ofTable t).topOf name)
          = .ok (before ++ inner ++ after) ∧
        indent.all isBlank = true ∧ t.Expands d name indent inner := by
  obtain ⟨htops, hac, hcl⟩ := Lattice.problems_eq_nil_iff.mp hv
  have hcoherent := Lattice.coherent_ofTable t
  have hleads := Lattice.reflTransGen_topOf hcoherent name
  have hroot : (Lattice.ofTable t).topOf name ∈ (Lattice.ofTable t).roots := by
    refine Lattice.topOf_mem_roots hcoherent ?_ (hcl.mem_names_iff.mpr hname)
    rw [Lattice.child_ofTable]
    exact hac
  rw [Lattice.child_ofTable] at hleads
  generalize (Lattice.ofTable t).topOf name = r at hleads hroot
  obtain ⟨hkey, htop⟩ := Lattice.mem_roots_ofTable.mp hroot
  refine ⟨hroot, htops r hkey htop, fun d => ?_⟩
  obtain ⟨es, htrace⟩ := exists_trace hac hcl hkey
  have htangled := htrace.tangleText_eq hac (hcl.mem_names_iff.mpr hkey) d
  obtain ⟨chunk, hc, hes⟩ := htrace
  have hexpands : t.Expands d r [] (es.flatMap (Emission.text d)) := ⟨chunk, hc, hes.expandsLines⟩
  obtain ⟨before, inner, after, indent, hout, hindent, hinner⟩ := hexpands.exists_inner rfl hleads
  rw [hout] at htangled
  exact ⟨before, inner, after, indent, htangled, hindent, hinner⟩

end ChunkTable

namespace Document

variable {read : Path → Except Fault Text} {d : Document} {p : Pass}

/-- Where a page has a fence that opens a chunk, the scanner opened the chunk. -/
theorem opened_of_chunkStart (hof : p.Of read) (h : d.shown p.file = p.shown) {n : Nat}
    {line : Text} {name : ChunkName} (hline : (d.textOf p.file).lines[n]? = some line)
    (hstart : (d.notes p.file (n + 1)).chunkStart = some name) :
    ∃ met : Text, p.lines[n]? = some met ∧ met.withoutReturn = line ∧
      (p.stateAt n).opened met = some name := by
  rw [lines_textOf hof h, List.getElem?_map] at hline
  obtain ⟨met, hmet, hkept⟩ := Option.map_eq_some_iff.mp hline
  rw [notes_eq hof h hmet] at hstart
  exact ⟨met, hmet, hkept, hstart⟩

/-- There the page has the name of the chunk and the tagged fence. -/
theorem emitted_of_chunkStart (hof : p.Of read) (h : d.shown p.file = p.shown) (l : Lattice)
    (marker : Text) {n : Nat} {line : Text} {name : ChunkName}
    (hline : (d.textOf p.file).lines[n]? = some line)
    (hstart : (d.notes p.file (n + 1)).chunkStart = some name) :
    d.emitted l marker p.file n
      = ((d.notes p.file (n + 1)).sectionStart.map anchorLine).getD [] ++ marker ++ name.text
        ++ "\n\n".toList ++ taggedFence l line name ++ ['\n'] := by
  obtain ⟨met, hmet, rfl, hopened⟩ := opened_of_chunkStart hof h hline hstart
  have hclosed : (p.stateAt n).closed met = none := by
    rw [Scanner.closed]
    rw [Scanner.opened] at hopened
    cases hk : (p.stateAt n).kind met with
    | chunkClose =>
        rw [hk] at hopened
        cases hopened
    | _ => rfl
  rw [emitted_eq hof h l marker hmet, notes_eq hof h hmet, Scanner.notes, hopened, hclosed,
    annotateLine_open]

end Document

/-- And the chunk is in the table. -/
theorem Scan.Passed.mem_keys_of_chunkStart {read : Path → Except Fault Text} {scan : Scan}
    {ps : List Pass} (h : scan.Passed read ps) {p : Pass} (hp : p ∈ ps) {d : Document}
    (hshown : d.shown p.file = p.shown) {n : Nat} {line : Text} {name : ChunkName}
    (hline : (d.textOf p.file).lines[n]? = some line)
    (hstart : (d.notes p.file (n + 1)).chunkStart = some name) :
    name ∈ scan.document.chunks.keys := by
  obtain ⟨met, hmet, -, hopened⟩ :=
    Document.opened_of_chunkStart (h.of p hp) hshown hline hstart
  refine ChunkTable.mem_keys_of_definition ?_
  rw [h.definitions, Ne, List.flatMap_eq_nil_iff]
  intro hnone
  have hvisit := hnone (p.stateAt n, met)
    (List.mem_flatMap.mpr ⟨p, hp, Pass.stateAt_mem_visits hmet⟩)
  rw [Scanner.defined, if_pos hopened] at hvisit
  exact absurd hvisit (List.cons_ne_nil _ _)

/-- **A fence shows the language of a file that the chunk is in.**  In every lattice that
    additions make, the climb from a name comes to an end, at a name that leads down to it
    again; and at a root, if the lattice has no cycle and the name is one of its names.  So
    after a scan that did not fail and a check that found nothing, wherever a page has a
    fence that opens a chunk, the fence is followed by the language of a root named like a
    file, and whatever the directive, tangling the root gives a text that has in it the
    expansion of the chunk, behind blanks. -/
theorem fences_show_the_language_of_a_file :
    (∀ (as : List Addition) (l : Lattice), Lattice.ofAdditions as = l → ∀ name : ChunkName,
      (∃ rounds ≤ l.names.length + 1, l.Climbs rounds [] name (l.topOf name)) ∧
      ReflTransGen l.Child (l.topOf name) name ∧
      ((∀ a, ¬ TransGen l.Child a a) → name ∈ l.names → l.topOf name ∈ l.roots)) ∧
    ∀ (read : Path → Except Fault Text) (root : Path) (book : Bool)
      (outputs : OrderedMap Path Path) (marker : Text) (d : Document),
      { (Scan.run read root book).document with outputs } = d →
      (Scan.run read root book).failure = none →
      d.lattice.problems d.chunks = [] →
      ∀ f ∈ d.inputs,
        d.annotate d.lattice marker f
          = (List.range (d.textOf f).lines.length).flatMap (d.emitted d.lattice marker f) ∧
        ∀ (n : Nat) (line : Text) (name : ChunkName), (d.textOf f).lines[n]? = some line →
          (d.notes f (n + 1)).chunkStart = some name →
          ∃ r ∈ d.lattice.roots, r = d.lattice.topOf name ∧ r.isFilename = true ∧
            d.emitted d.lattice marker f n
              = ((d.notes f (n + 1)).sectionStart.map Document.anchorLine).getD [] ++ marker
                ++ name.text ++ "\n\n".toList
                ++ (Line.backticks line ++ r.languageTag.getD []) ++ ['\n'] ∧
            ∀ directive : Directive, ∃ before inner after indent : Text,
              tangleText d.chunks d.lattice directive r = .ok (before ++ inner ++ after) ∧
              indent.all isBlank = true ∧ d.chunks.Expands directive name indent inner := by
  constructor
  · rintro as l rfl name
    have hcoherent := (Lattice.sound_ofAdditions as).coherent
    exact ⟨Lattice.exists_climbs_topOf _ name, Lattice.reflTransGen_topOf hcoherent name,
      fun hac => Lattice.topOf_mem_roots hcoherent hac⟩
  · rintro read root book outputs marker d rfl hok hv f hf
    refine ⟨Document.annotate_eq_flatMap _ _ marker f, ?_⟩
    intro n line name hline hstart
    obtain ⟨-, ps, hfiles, hps⟩ := Scan.passed_run hok
    obtain ⟨p, hp, rfl⟩ : ∃ p ∈ ps, p.file = f := by
      rw [← List.mem_map, hfiles]
      exact hf
    have hshown : ({ (Scan.run read root book).document with outputs } : Document).shown p.file
        = p.shown := hps.shown p hp
    have hkey := hps.mem_keys_of_chunkStart hp hshown hline hstart
    obtain ⟨hroot, hfile, hholds⟩ := ChunkTable.holds_topOf hv hkey
    exact ⟨_, hroot, rfl, hfile,
      Document.emitted_of_chunkStart (hps.of p hp) hshown _ marker hline hstart, hholds⟩

/-- The chapter of the shelf defines a chunk that is not named like a file.  Its fence is tagged
    with the language of the only file, which has the expansion of the chunk in it. -/
theorem fence_of_shelf_shows_its_file :
    (Scan.run shelf ⟨['b']⟩ true).failure = none ∧
    shelved.lattice.problems shelved.chunks = [] ∧
    ∃ f ∈ shelved.inputs, f.spelling = "c.md".toList ∧
      (∃ start, shelved.emitted shelved.lattice [] f 0 = start ++ "```x\n".toList) ∧
      ∃ before inner after indent,
        tangleText shelved.chunks shelved.lattice .none ⟨"a.x".toList⟩
          = .ok (before ++ inner ++ after) ∧
        indent.all isBlank = true ∧ shelved.chunks.Expands .none ⟨['y']⟩ indent inner := by
  have hok : (Scan.run shelf ⟨['b']⟩ true).failure = none := by decide +kernel
  have hv : shelved.lattice.problems shelved.chunks = [] := by decide +kernel
  have hroots : shelved.lattice.roots = [⟨"a.x".toList⟩] := by decide +kernel
  have hchapter : (shelved.inputs.any fun f => f.spelling == "c.md".toList &&
      ((shelved.textOf f).lines[0]? == some "```y".toList &&
        (shelved.notes f 1).chunkStart == some ⟨['y']⟩)) = true := by decide +kernel
  obtain ⟨f, hf, hchapter⟩ := List.any_eq_true.mp hchapter
  obtain ⟨hspelling, hchapter⟩ := Bool.and_eq_true_iff.mp hchapter
  obtain ⟨hline, hstart⟩ := Bool.and_eq_true_iff.mp hchapter
  obtain ⟨-, hpages⟩ := fences_show_the_language_of_a_file
  obtain ⟨-, hfences⟩ :=
    hpages shelf ⟨['b']⟩ true shelved.outputs [] shelved rfl hok hv f hf
  obtain ⟨r, hr, -, -, hemitted, hholds⟩ :=
    hfences 0 _ ⟨['y']⟩ (beq_iff_eq.mp hline) (beq_iff_eq.mp hstart)
  rw [hroots] at hr
  obtain rfl := List.mem_singleton.mp hr
  exact ⟨hok, hv, f, hf, beq_iff_eq.mp hspelling, ⟨_, hemitted.trans (List.append_assoc _ _ _)⟩,
    hholds .none⟩

end Literate
