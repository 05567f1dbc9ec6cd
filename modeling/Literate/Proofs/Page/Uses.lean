import Literate.Page.CrossReference
import Literate.Proofs.Document.Sections
import Literate.Proofs.Lattice.Edges
import Literate.Proofs.Section.Numbering

/-! # Uses are listed exactly

    Behind a closing fence a page lists the sections in which the chunk is used.
    The list is made in a roundabout way: the chunks that refer to the name are
    taken from the lattice, which has each of them once; their lines are those of
    all their blocks together; and the block of a line is looked for as the last
    definition above it.

    * The detour over the lattice loses nothing: a chunk that is no parent has no
      line to list (`Document.usedIn_perm`).
    * The last definition above a line is that of its own block, because blocks
      follow each other down a document (`Scan.Passed.definitionBefore?_block`). -/

namespace Literate

/-- Items that give nothing may be left out. -/
theorem flatMap_filter_eq {α β : Type} {p : α → Bool} {f : α → List β} {as : List α}
    (h : ∀ a ∈ as, p a = false → f a = []) : (as.filter p).flatMap f = as.flatMap f := by
  induction as with
  | nil => rfl
  | cons a as ih =>
      have ih := ih fun b hb => h b (List.mem_cons_of_mem _ hb)
      cases hp : p a with
      | true => rw [List.filter_cons_of_pos hp, List.flatMap_cons, List.flatMap_cons, ih]
      | false =>
          rw [List.filter_cons_of_neg (by simp [hp]), List.flatMap_cons,
            h a List.mem_cons_self hp, ih, List.nil_append]

/-! ## The lines that refer to a name -/

/-- Whether a line is a reference to the name. -/
def ChunkLine.refersTo (x : ChunkName) (l : ChunkLine) : Bool :=
  l.reference?.map Reference.name == some x

namespace ChunkTable

/-- The lines of all chunks. -/
def allLines (t : ChunkTable) : List ChunkLine :=
  t.entries.flatMap fun e => e.2.lines

theorem refers_of_refersTo {t : ChunkTable} {y x : ChunkName} {chunk : Chunk} {l : ChunkLine}
    (hchunk : t.get? y = some chunk) (hl : l ∈ chunk.lines) (hx : l.refersTo x = true) :
    t.Refers y x := by
  obtain ⟨ref, href, hname⟩ := Option.map_eq_some_iff.mp (beq_iff_eq.mp hx)
  exact ⟨chunk, hchunk, l, hl, ref, href, hname⟩

end ChunkTable

namespace Document

/-- The section that a line of a chunk is listed under. -/
def sectionOf (chunk : Chunk) (l : ChunkLine) : Section :=
  ((chunk.definitionBefore? l.location).map Definition.within).getD (.root .empty)

/-- The lines that refer to a name, each with the section that it is listed under. -/
def uses (t : ChunkTable) (x : ChunkName) : List (ChunkLine × Section) :=
  t.entries.flatMap fun e => (e.2.lines.filter (ChunkLine.refersTo x)).map fun l =>
    (l, sectionOf e.2 l)

theorem map_fst_uses (t : ChunkTable) (x : ChunkName) :
    (uses t x).map Prod.fst = t.allLines.filter (ChunkLine.refersTo x) := by
  rw [uses, ChunkTable.allLines, List.map_flatMap, List.filter_flatMap]
  refine List.flatMap_congr fun e _ => ?_
  rw [List.map_map]
  exact List.map_id _

theorem map_snd_uses (t : ChunkTable) (x : ChunkName) :
    (uses t x).map Prod.snd = t.entries.flatMap fun e => usesIn e.2 x := by
  rw [uses, List.map_flatMap]
  refine List.flatMap_congr fun e _ => ?_
  rw [List.map_map]
  rfl

/-- What the chunk of a name lists. -/
def usesOf (t : ChunkTable) (x y : ChunkName) : List Section :=
  match t.get? y with
  | none => []
  | some chunk => usesIn chunk x

/-- A chunk that does not refer to a name lists nothing. -/
theorem usesOf_eq_nil {t : ChunkTable} {x y : ChunkName} (h : ¬ t.Refers y x) :
    usesOf t x y = [] := by
  rw [usesOf]
  cases hchunk : t.get? y with
  | none => rfl
  | some chunk =>
      refine List.map_eq_nil_iff.mpr (List.filter_eq_nil_iff.mpr fun l hl hx => ?_)
      exact h (ChunkTable.refers_of_refersTo hchunk hl hx)

theorem flatMap_usesOf (t : ChunkTable) (x : ChunkName) :
    t.keys.flatMap (usesOf t x) = t.entries.flatMap fun e => usesIn e.2 x := by
  rw [OrderedMap.keys, List.flatMap_map]
  refine List.flatMap_congr fun e he => ?_
  rw [usesOf, OrderedMap.get?_eq_some_iff.mpr he]

/-- The list of uses has one section for each line that refers to the chunk. -/
theorem usedIn_perm (d : Document) (e : ChunkEnd) :
    (d.usedIn d.lattice e).Perm ((uses d.chunks e.name).map Prod.snd) := by
  have hparent : ∀ y, y ∈ d.lattice.parents e.name ↔ d.chunks.Refers y e.name :=
    fun _ => Lattice.mem_parents_ofTable
  -- the parents are those names of the table that have something to list
  have hparents : (d.lattice.parents e.name).Perm
      (d.chunks.keys.filter fun y => (d.lattice.parents e.name).contains y) := by
    refine (List.perm_ext_iff_of_nodup (Lattice.nodup_parents_ofTable d.chunks e.name)
      (d.chunks.nodup_keys.filter _)).mpr fun y => ?_
    rw [List.mem_filter, List.contains_iff_mem]
    exact ⟨fun hy => ⟨ChunkTable.mem_keys_of_refers ((hparent y).mp hy), hy⟩, And.right⟩
  have hrest : (d.chunks.keys.filter fun y => (d.lattice.parents e.name).contains y).flatMap
      (usesOf d.chunks e.name) = d.chunks.keys.flatMap (usesOf d.chunks e.name) := by
    refine flatMap_filter_eq fun y _ hy => usesOf_eq_nil fun hrefers => ?_
    rw [List.contains_iff_mem.mpr ((hparent y).mpr hrefers)] at hy
    cases hy
  have hsort : (d.usedIn d.lattice e).Perm
      ((d.lattice.parents e.name).flatMap (usesOf d.chunks e.name)) := List.mergeSort_perm _ _
  rw [map_snd_uses, ← flatMap_usesOf, ← hrest]
  exact hsort.trans (hparents.flatMap_right _)

end Document

/-! ## The block of a line -/

/-- Of the blocks of a name that begin above a line, the last is the one that the line stands
    in. -/
theorem Fenced.getLast?_above {start : Scanner} {lines : List Text} {blocks : List Fences}
    (h : Fenced start lines blocks) {b : Fences} (hb : b ∈ blocks) {n : Nat}
    (hfirst : b.first < n) (hlast : n < b.last) :
    ((blocks.filter (·.name == b.name)).filter (·.first < n)).getLast? = some b := by
  have hincreasing := h.increasing
  obtain ⟨before, after, rfl⟩ := List.append_of_mem hb
  -- what follows the block begins behind its end, and so below the line
  have hafter : ∀ c ∈ after, ¬ c.first < n := by
    intro c hc
    rw [List.flatMap_append, List.flatMap_cons] at hincreasing
    have hrest := (List.pairwise_append.mp (List.pairwise_append.mp hincreasing).2.1).2.2
    have hlt : b.last < c.first := hrest b.last (by simp) c.first
      (List.mem_flatMap.mpr ⟨c, hc, List.mem_cons_self⟩)
    omega
  have hnone : (after.filter (·.name == b.name)).filter (·.first < n) = [] := by
    refine List.filter_eq_nil_iff.mpr fun c hc => ?_
    simpa using hafter c (List.mem_filter.mp hc).1
  have hhere : ((b :: after).filter (·.name == b.name)).filter (·.first < n) = [b] := by
    rw [List.filter_cons, if_pos (beq_self_eq_true b.name), List.filter_cons,
      if_pos (decide_eq_true hfirst), hnone]
  rw [List.filter_append, List.filter_append, hhere, List.getLast?_concat]

namespace Scan

variable {read : Path → Except Fault Text} {scan : Scan} {ps : List Pass}

/-- Where a line of a chunk stands: in a block of its name, whose definition is the last one
    above the line. -/
theorem Passed.definitionBefore?_block (h : scan.Passed read ps)
    (hdistinct : (ps.map Pass.file).Pairwise fun p q => (p == q) = false)
    {x : ChunkName} {chunk : Chunk} (hchunk : scan.document.chunks.get? x = some chunk)
    {l : ChunkLine} (hl : l ∈ chunk.lines) :
    ∃ p ∈ ps, l.location.file = p.file ∧ ∃ b : Fences, Block p.lines x b.first b.last ∧
      b.first < l.location.line ∧ l.location.line < b.last ∧
      chunk.definitionBefore? l.location = some (b.definition p.file) := by
  rw [← ChunkTable.linesOf_eq hchunk, h.lines] at hl
  obtain ⟨v, hv, hl⟩ := List.mem_flatMap.mp hl
  obtain ⟨p, hp, hv⟩ := List.mem_flatMap.mp hv
  obtain ⟨hin, hfence, hname, rfl⟩ := Scanner.mem_taken.mp hl
  obtain ⟨blocks, hblocks⟩ := p.exists_fenced (h.of p hp)
  obtain ⟨b, hb, rfl, hfirst, hlast⟩ := (hblocks.content v hv x).mp ⟨hin, hfence, hname⟩
  have hfile : v.1.file = p.file := Pass.file_of_mem_visits hv
  refine ⟨p, hp, hfile, b, hblocks.sound b hb, Nat.lt_succ_of_le hfirst, hlast, ?_⟩
  -- in this document the chunk has the definitions of the blocks of its name
  have hhere : chunk.definitions.filter (·.location.file == p.file)
      = (blocks.filter (·.name == b.name)).map (Fences.definition p.file) := by
    rw [← ChunkTable.definitionsOf_eq hchunk, h.definitions,
      filter_flatMap_file (fun _ _ => Scanner.location_of_defined) hdistinct hp]
    exact hblocks.definitions b.name
  have habove : (chunk.definitions.filter fun d =>
        d.location.file == p.file && decide (d.location.line < v.1.lineNumber + 1))
      = ((blocks.filter (·.name == b.name)).filter (·.first < v.1.lineNumber + 1)).map
          (Fences.definition p.file) := by
    calc _ = (chunk.definitions.filter (·.location.file == p.file)).filter
            (·.location.line < v.1.lineNumber + 1) := by
          rw [List.filter_filter]
          exact List.filter_congr fun d _ => Bool.and_comm _ _
      _ = _ := by
          rw [hhere]
          exact List.filter_map
  rw [Chunk.definitionBefore?, hfile, habove, List.getLast?_map,
    hblocks.getLast?_above hb (Nat.lt_succ_of_le hfirst) hlast]
  rfl

/-- Lines of two chunks stand at different places. -/
theorem Passed.name_eq_of_location (h : scan.Passed read ps)
    (hdistinct : (ps.map Pass.file).Pairwise fun p q => (p == q) = false) {x y : ChunkName}
    {l l' : ChunkLine} (hl : l ∈ scan.document.chunks.linesOf x)
    (hl' : l' ∈ scan.document.chunks.linesOf y) (hsame : (l.location == l'.location) = true) :
    x = y := by
  rw [h.lines] at hl
  obtain ⟨v, hv, hl⟩ := List.mem_flatMap.mp hl
  -- both lines were taken from the one line that stands at their place
  have hboth : l' ∈ (scan.document.chunks.linesOf y).filter (·.location == Scanner.place v) := by
    refine List.mem_filter.mpr ⟨hl', ?_⟩
    rw [← Scanner.location_of_taken hl]
    obtain ⟨hfile, hline⟩ := Location.beq_iff.mp hsame
    exact Location.beq_iff.mpr ⟨BEq.symm hfile, hline.symm⟩
  rw [h.filter_linesOf hdistinct hv] at hboth
  obtain ⟨-, -, hx, -⟩ := Scanner.mem_taken.mp hl
  obtain ⟨-, -, hy, -⟩ := Scanner.mem_taken.mp hboth
  exact hx.symm.trans hy

/-- No line stands twice in the chunks of a run. -/
theorem Passed.pairwise_allLines (h : scan.Passed read ps)
    (hdistinct : (ps.map Pass.file).Pairwise fun p q => (p == q) = false) :
    scan.document.chunks.allLines.Pairwise fun l l' => (l.location == l'.location) = false := by
  have hlines : ∀ e ∈ scan.document.chunks.entries,
      scan.document.chunks.linesOf e.1 = e.2.lines :=
    fun e he => ChunkTable.linesOf_eq (OrderedMap.get?_eq_some_iff.mpr he)
  refine List.pairwise_flatMap.mpr ⟨fun e he => ?_, ?_⟩
  · rw [← hlines e he, h.lines]
    refine (pairwise_flatMap_place (fun _ _ => Scanner.location_of_taken) fun v => ?_).imp
      fun hbefore => hbefore.ne hdistinct
    rw [Scanner.taken]
    split <;> simp
  · refine scan.document.chunks.distinct.imp_of_mem fun {e e'} he he' hne l hl l' hl' => ?_
    refine Bool.eq_false_iff.mpr fun hsame => ?_
    rw [← hlines e he] at hl
    rw [← hlines e' he'] at hl'
    rw [h.name_eq_of_location hdistinct hl hl' hsame, beq_self_eq_true] at hne
    cases hne

/-- **Uses are listed exactly.**  After a scan that did not fail, the list of uses behind a
    closing fence has one section for each line, of all lines of all chunks, that is a
    reference to the chunk that closes; no line stands twice among these.  The section
    of a line is the one recorded at the opening fence of the block that the line
    stands in.  The list is in the order of the section numbers. -/
theorem uses_are_listed_exactly (read : Path → Except Fault Text) (root : Path) (book : Bool)
    {doc : Document} (hdoc : (run read root book).document = doc)
    (hok : (run read root book).failure = none) (e : ChunkEnd) :
    (∃ uses : List (ChunkLine × Section),
      uses.map Prod.fst = doc.chunks.allLines.filter (ChunkLine.refersTo e.name) ∧
      (doc.usedIn doc.lattice e).Perm (uses.map Prod.snd) ∧
      ∀ u ∈ uses, u.1.location.file ∈ doc.inputs ∧
        ∃ y content first last, u.1 ∈ doc.chunks.linesOf y ∧
          read u.1.location.file = .ok content ∧ Block content.lines y first last ∧
          first < u.1.location.line ∧ u.1.location.line < last ∧
          ⟨⟨u.1.location.file, first⟩, u.2⟩ ∈ doc.chunks.definitionsOf y) ∧
    (doc.chunks.allLines.Pairwise fun l l' => (l.location == l'.location) = false) ∧
    (doc.usedIn doc.lattice e).Pairwise fun s t => s.compare t ≠ .gt := by
  subst hdoc
  obtain ⟨hdistinct, ps, hfiles, hps⟩ := passed_run hok
  rw [Document.Distinct, ← hfiles] at hdistinct
  refine ⟨⟨_, Document.map_fst_uses _ e.name, Document.usedIn_perm _ e, fun u hu => ?_⟩,
    hps.pairwise_allLines hdistinct, Section.pairwise_sortBy_compare _⟩
  obtain ⟨entry, hentry, hu⟩ := List.mem_flatMap.mp hu
  obtain ⟨l, hl, rfl⟩ := List.mem_map.mp hu
  have hchunk := OrderedMap.get?_eq_some_iff.mpr hentry
  have hl := (List.mem_filter.mp hl).1
  obtain ⟨p, hp, hfile, b, hblock, hfirst, hlast, hbefore⟩ :=
    hps.definitionBefore?_block hdistinct hchunk hl
  obtain ⟨content, hread, hlines⟩ := (hps.of p hp).read_eq
  rw [← hfiles]
  refine ⟨hfile ▸ List.mem_map_of_mem hp, entry.1, content, b.first, b.last, ?_, ?_, ?_, hfirst,
    hlast, ?_⟩
  · rw [ChunkTable.linesOf_eq hchunk]
    exact hl
  · rw [hfile]
    exact hread
  · rw [hlines]
    exact hblock
  · rw [ChunkTable.definitionsOf_eq hchunk]
    show ⟨⟨l.location.file, b.first⟩, Document.sectionOf entry.2 l⟩ ∈ entry.2.definitions
    rw [Document.sectionOf, hbefore, hfile]
    exact (List.mem_filter.mp (List.mem_of_getLast? hbefore)).1

/-- A book in which one chunk is used four times: twice in a block, once where the chunk of
    that block goes on, and once in a chapter. -/
def almanac (p : Path) : Except Fault Text :=
  if p.spelling = ['b'] then
    .ok "# A\n```a.x\n@\x7by\x7d\n @\x7by\x7d\n```\n[c](c.md)\n# B\n```a.x\n@\x7by\x7d\n```".toList
  else if p.spelling = ['c', '.', 'm', 'd'] then .ok "```y\nz\n```\n```b.x\n@\x7by\x7d\n```".toList
  else .error .noSuchFile

/-- What a scan of the book finds. -/
def scannedAlmanac : Document :=
  (run almanac ⟨['b']⟩ true).document

/-- Behind the block of that chunk all four uses are listed. -/
theorem uses_of_almanac_listed :
    (run almanac ⟨['b']⟩ true).failure = none ∧
    ∃ e : Nat × ChunkEnd, e ∈ scannedAlmanac.endsIn ⟨['c', '.', 'm', 'd']⟩ ∧ e.2.name = ⟨['y']⟩ ∧
      (scannedAlmanac.usedIn scannedAlmanac.lattice e.2).length = 4 ∧
      (scannedAlmanac.usedIn scannedAlmanac.lattice e.2).Pairwise fun s t => s.compare t ≠ .gt := by
  have hok : (run almanac ⟨['b']⟩ true).failure = none := by decide +kernel
  have hclosed : ((scannedAlmanac.endsIn ⟨['c', '.', 'm', 'd']⟩).any
      fun e => e.2.name == ⟨['y']⟩) = true := by decide +kernel
  obtain ⟨e, he, hname⟩ := List.any_eq_true.mp hclosed
  have hname := beq_iff_eq.mp hname
  obtain ⟨⟨uses, huses, hperm, -⟩, -, hsorted⟩ :=
    uses_are_listed_exactly almanac ⟨['b']⟩ true (rfl : _ = scannedAlmanac) hok e.2
  have hcount : (scannedAlmanac.chunks.allLines.filter (ChunkLine.refersTo e.2.name)).length = 4 := by
    rw [hname]
    decide +kernel
  refine ⟨hok, e, he, hname, ?_, hsorted⟩
  rw [hperm.length_eq, ← hcount, ← huses, List.length_map, List.length_map]

end Scan

end Literate
