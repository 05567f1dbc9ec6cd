import Literate.Proofs.Document.Fences
import Mathlib.Data.List.Basic

/-! # Every line is accounted for

    A scan keeps each document in five places: the openings and closings of its
    chunks, the definitions and lines under their names, and the text.  This
    module says that these are one account of the documents: block by block, and
    line by line, nothing is missing and nothing is there twice
    (`Scan.accounts_for_every_line`).

    The lines that a run meets, over all documents, stand in one strict order
    (`Scan.pairwise_place`): the order of the inputs, and in a document
    the order of its lines.  So a location belongs to at most one of them, and
    what the chunks have there is what the scanner took from that one line
    (`Scan.Passed.filter_linesOf`). -/

namespace Literate

/-- One location comes before another in the order of a scan. -/
def Location.Before (inputs : List Path) (a b : Location) : Prop :=
  ∃ i j : Nat, inputs[i]? = some a.file ∧ inputs[j]? = some b.file ∧
    (i < j ∨ i = j ∧ a.line < b.line)

/-- Two locations are the same when their documents and lines are. -/
theorem Location.beq_iff {a b : Location} :
    (a == b) = true ↔ (a.file == b.file) = true ∧ a.line = b.line := by
  show (a.file == b.file && a.line == b.line) = true ↔ _
  rw [Bool.and_eq_true, beq_iff_eq (a := a.line)]

/-- Where no document stands twice, the order is strict. -/
theorem Location.Before.ne {inputs : List Path}
    (hdistinct : inputs.Pairwise fun p q => (p == q) = false) {a b : Location}
    (h : Before inputs a b) : (a == b) = false := by
  obtain ⟨i, j, hi, hj, horder⟩ := h
  refine Bool.eq_false_iff.mpr fun heq => ?_
  obtain ⟨hfile, hline⟩ := beq_iff.mp heq
  rcases horder with hlt | ⟨-, hlt⟩
  · obtain ⟨hi', hia⟩ := List.getElem?_eq_some_iff.mp hi
    obtain ⟨hj', hjb⟩ := List.getElem?_eq_some_iff.mp hj
    have hne := List.pairwise_iff_getElem.mp hdistinct i j hi' hj' hlt
    rw [hia, hjb, hfile] at hne
    cases hne
  · omega

/-- Where one item alone gives anything, it gives all there is. -/
theorem flatMap_of_unique {α β : Type} {f : α → List β} {before after : List α} {a : α}
    (hbefore : ∀ b ∈ before, f b = []) (hafter : ∀ b ∈ after, f b = []) :
    (before ++ a :: after).flatMap f = f a := by
  rw [List.flatMap_append, List.flatMap_cons, List.flatMap_eq_nil_iff.mpr hbefore,
    List.flatMap_eq_nil_iff.mpr hafter, List.nil_append, List.append_nil]

/-! ## The lines of a run in order -/

/-- Where the scanner meets a line. -/
def Scanner.place (v : Scanner × Text) : Location :=
  ⟨v.1.file, v.1.lineNumber + 1⟩

theorem Scanner.pairwise_visits (s : Scanner) (lines : List Text) :
    (s.visits lines).Pairwise fun v w => v.1.lineNumber < w.1.lineNumber := by
  induction lines generalizing s with
  | nil => exact List.Pairwise.nil
  | cons line lines ih =>
      refine List.pairwise_cons.mpr ⟨fun w hw => ?_, ih (s.next line)⟩
      have hle := (lineNumber_of_mem_visits hw).1
      rw [next_lineNumber] at hle
      exact hle

theorem Scanner.location_of_taken {v : Scanner × Text} {x : ChunkName} {l : ChunkLine}
    (h : l ∈ v.1.taken v.2 x) : l.location = place v := by
  obtain ⟨-, -, -, rfl⟩ := mem_taken.mp h
  rfl

theorem Scanner.location_of_defined {v : Scanner × Text} {x : ChunkName} {d : Definition}
    (h : d ∈ v.1.defined v.2 x) : d.location = place v := by
  rw [defined] at h
  split at h
  · rw [List.mem_singleton.mp h]
    rfl
  · cases h

namespace Pass

variable {p : Pass}

theorem file_of_mem_visits {v : Scanner × Text} (hv : v ∈ p.visits) : v.1.file = p.file := by
  obtain ⟨before, rest, -, hstate⟩ := Scanner.mem_visits hv
  rw [hstate, Scanner.file_foldl_next]
  rfl

/-- The line under a number, as the pass meets it. -/
theorem exists_visit {read : Path → Except Fault Text} (h : p.Of read) {n : Nat}
    {text : Text} (hline : p.lines[n]? = some text) :
    ∃ v ∈ p.visits, v.2 = text ∧ v.1.lineNumber = n ∧ v.1.file = p.file := by
  obtain ⟨hn, htext⟩ := List.getElem?_eq_some_iff.mp hline
  generalize hs : (p.lines.take n).foldl Scanner.next p.start = s
  have hmem : (s, text) ∈ p.visits := by
    have hsplit : p.lines = p.lines.take n ++ text :: p.lines.drop (n + 1) := by
      rw [← htext, List.getElem_cons_drop, List.take_append_drop]
    rw [visits, hsplit, Scanner.visits_append, hs]
    exact List.mem_append_right _ List.mem_cons_self
  refine ⟨(s, text), hmem, rfl, ?_, file_of_mem_visits hmem⟩
  rw [← hs, Scanner.lineNumber_foldl_next, h.atStart.lineNumber, List.length_take]
  simp only [List.length_nil]
  omega

end Pass

namespace Scan

variable {read : Path → Except Fault Text} {scan : Scan} {ps : List Pass}

/-- The lines that a run meets stand in the order of the scan. -/
theorem pairwise_place (ps : List Pass) :
    (ps.flatMap Pass.visits).Pairwise fun v w =>
      Location.Before (ps.map Pass.file) (Scanner.place v) (Scanner.place w) := by
  refine List.pairwise_flatMap.mpr ⟨fun p hp => ?_, ?_⟩
  · obtain ⟨i, hi, rfl⟩ := List.getElem_of_mem hp
    refine (Scanner.pairwise_visits _ _).imp_of_mem fun {v w} hv hw hlt => ?_
    have hindex : (ps.map Pass.file)[i]? = some ps[i].file := by
      rw [List.getElem?_map, List.getElem?_eq_getElem hi]
      rfl
    refine ⟨i, i, ?_, ?_, Or.inr ⟨rfl, Nat.succ_lt_succ hlt⟩⟩
    · rw [hindex, ← Pass.file_of_mem_visits hv, Scanner.place]
    · rw [hindex, ← Pass.file_of_mem_visits hw, Scanner.place]
  · refine List.pairwise_iff_getElem.mpr fun i j hi hj hlt v hv w hw => ?_
    refine ⟨i, j, ?_, ?_, Or.inl hlt⟩
    · rw [List.getElem?_map, List.getElem?_eq_getElem hi, Option.map_some,
        ← Pass.file_of_mem_visits hv, Scanner.place]
    · rw [List.getElem?_map, List.getElem?_eq_getElem hj, Option.map_some,
        ← Pass.file_of_mem_visits hw, Scanner.place]

/-- What a run gives out at its lines, cut to one location, is what it gives out at the
    line that stands there. -/
theorem filter_flatMap_place {α : Type} {out : Scanner × Text → List α}
    {location : α → Location} (hout : ∀ v, ∀ a ∈ out v, location a = Scanner.place v)
    (hdistinct : (ps.map Pass.file).Pairwise fun p q => (p == q) = false)
    {v : Scanner × Text} (hv : v ∈ ps.flatMap Pass.visits) :
    ((ps.flatMap Pass.visits).flatMap out).filter (location · == Scanner.place v) = out v := by
  have horder := pairwise_place ps
  obtain ⟨before, after, hsplit⟩ := List.append_of_mem hv
  rw [hsplit] at horder ⊢
  obtain ⟨-, hafter, hbefore⟩ := List.pairwise_append.mp horder
  rw [List.filter_flatMap, flatMap_of_unique]
  · refine List.filter_eq_self.mpr fun a ha => ?_
    rw [hout v a ha]
    exact Location.beq_iff.mpr ⟨BEq.rfl, rfl⟩
  · -- other lines stand elsewhere, before it or behind it
    intro w hw
    refine List.filter_eq_nil_iff.mpr fun a ha => ?_
    rw [hout w a ha, (hbefore w hw v List.mem_cons_self).ne hdistinct]
    exact Bool.false_ne_true
  · intro w hw
    refine List.filter_eq_nil_iff.mpr fun a ha heq => ?_
    have hne := ((List.pairwise_cons.mp hafter).1 w hw).ne hdistinct
    rw [hout w a ha] at heq
    obtain ⟨hfile, hline⟩ := Location.beq_iff.mp heq
    rw [Location.beq_iff.mpr ⟨BEq.symm hfile, hline.symm⟩] at hne
    cases hne

/-- What a run gives out, cut to the document of one pass, is what it gives out there. -/
theorem filter_flatMap_file {α : Type} {out : Scanner × Text → List α}
    {location : α → Location} (hout : ∀ v, ∀ a ∈ out v, location a = Scanner.place v)
    (hdistinct : (ps.map Pass.file).Pairwise fun p q => (p == q) = false) {p : Pass}
    (hp : p ∈ ps) :
    ((ps.flatMap Pass.visits).flatMap out).filter (fun a => (location a).file == p.file)
      = p.visits.flatMap out := by
  have hfile : ∀ q : Pass, ∀ a ∈ q.visits.flatMap out, (location a).file = q.file := by
    intro q a ha
    obtain ⟨v, hv, ha⟩ := List.mem_flatMap.mp ha
    rw [hout v a ha]
    exact Pass.file_of_mem_visits hv
  obtain ⟨before, after, rfl⟩ := List.append_of_mem hp
  rw [List.map_append, List.map_cons] at hdistinct
  obtain ⟨-, hafter, hbefore⟩ := List.pairwise_append.mp hdistinct
  rw [List.flatMap_assoc, List.filter_flatMap, flatMap_of_unique]
  · refine List.filter_eq_self.mpr fun a ha => ?_
    rw [hfile p a ha]
    exact BEq.rfl
  · intro q hq
    refine List.filter_eq_nil_iff.mpr fun a ha => ?_
    rw [hfile q a ha, hbefore q.file (List.mem_map_of_mem hq) p.file List.mem_cons_self]
    exact Bool.false_ne_true
  · intro q hq
    refine List.filter_eq_nil_iff.mpr fun a ha => ?_
    rw [hfile q a ha, BEq.comm, (List.pairwise_cons.mp hafter).1 q.file (List.mem_map_of_mem hq)]
    exact Bool.false_ne_true

/-- What a run gives out stands in the order of the scan, if each line gives at most one. -/
theorem pairwise_flatMap_place {α : Type} {out : Scanner × Text → List α}
    {location : α → Location} (hout : ∀ v, ∀ a ∈ out v, location a = Scanner.place v)
    (hone : ∀ v, (out v).length ≤ 1) :
    ((ps.flatMap Pass.visits).flatMap out).Pairwise fun a b =>
      Location.Before (ps.map Pass.file) (location a) (location b) := by
  refine List.pairwise_flatMap.mpr ⟨fun v _ => ?_, ?_⟩
  · match hv : out v, hone v with
    | [], _ => exact List.Pairwise.nil
    | [a], _ => exact List.pairwise_singleton _ _
  · refine (pairwise_place ps).imp fun {v w} hvw a ha b hb => ?_
    rw [hout v a ha, hout w b hb]
    exact hvw

/-- What a run gives out comes from the documents it reads. -/
theorem file_mem_of_out {α : Type} {out : Scanner × Text → List α} {location : α → Location}
    (hout : ∀ v, ∀ a ∈ out v, location a = Scanner.place v) {a : α}
    (ha : a ∈ (ps.flatMap Pass.visits).flatMap out) :
    (location a).file ∈ ps.map Pass.file := by
  obtain ⟨v, hv, ha⟩ := List.mem_flatMap.mp ha
  obtain ⟨p, hp, hv⟩ := List.mem_flatMap.mp hv
  rw [hout v a ha]
  exact List.mem_map.mpr ⟨p, hp, (Pass.file_of_mem_visits hv).symm⟩

end Scan

namespace ChunkTable

/-- The lines of all chunks at one location, each with the name of its chunk. -/
def located (t : ChunkTable) (place : Location) : List (ChunkName × ChunkLine) :=
  t.entries.flatMap fun e => (e.2.lines.filter (·.location == place)).map (e.1, ·)

/-- The same name by name. -/
theorem located_eq (t : ChunkTable) (place : Location) :
    t.located place
      = t.keys.flatMap fun x => ((t.linesOf x).filter (·.location == place)).map (x, ·) := by
  rw [located, OrderedMap.keys, List.flatMap_map]
  refine List.flatMap_congr fun e he => ?_
  rw [linesOf_eq (OrderedMap.get?_eq_some_iff.mpr he)]

theorem mem_keys_of_mem_linesOf {t : ChunkTable} {x : ChunkName} {l : ChunkLine}
    (h : l ∈ t.linesOf x) : x ∈ t.keys := by
  rw [linesOf] at h
  cases hx : t.get? x with
  | none =>
      rw [hx] at h
      cases h
  | some chunk => exact OrderedMap.mem_keys_iff.mpr ⟨chunk, hx⟩

/-- Lines that only one name has at a location are all there is. -/
theorem located_of_unique {t : ChunkTable} {place : Location} {x : ChunkName} {l : ChunkLine}
    (hx : (t.linesOf x).filter (·.location == place) = [l])
    (hother : ∀ y, y ≠ x → (t.linesOf y).filter (·.location == place) = []) :
    t.located place = [(x, l)] := by
  have hmem : x ∈ t.keys := by
    have hl : l ∈ (t.linesOf x).filter (·.location == place) := hx ▸ List.mem_cons_self
    exact mem_keys_of_mem_linesOf (List.mem_filter.mp hl).1
  obtain ⟨before, after, hsplit⟩ := List.append_of_mem hmem
  have hnodup := t.nodup_keys
  rw [hsplit] at hnodup
  obtain ⟨-, hafter, hbefore⟩ := List.nodup_append.mp hnodup
  have hskip : ∀ y, y ≠ x →
      ((t.linesOf y).filter (·.location == place)).map (y, ·) = [] := by
    intro y hy
    rw [hother y hy]
    rfl
  rw [located_eq, hsplit, flatMap_of_unique]
  · rw [hx]
    rfl
  · intro y hy
    exact hskip y (hbefore y hy x List.mem_cons_self)
  · intro y hy
    exact hskip y fun heq => (List.nodup_cons.mp hafter).1 (heq ▸ hy)

end ChunkTable

/-! ## The account -/

namespace Document

/-- The document set accounts for the lines of a document by these blocks. -/
structure Accounts (d : Document) (f : Path) (lines : List Text) (blocks : List Fences) :
    Prop where
  /-- The blocks are those of the document. -/
  block_iff : ∀ name first last, Block lines name first last ↔
    ∃ b ∈ blocks, b.name = name ∧ b.first = first ∧ b.last = last
  /-- Openings and closings are as many, in turns, and each closing has the name of its
      opening. -/
  starts : d.startsIn f = blocks.map Fences.opening
  ends : d.endsIn f = blocks.map Fences.closing
  increasing : (blocks.flatMap fun b => [b.first, b.last]).Pairwise (· < ·)
  /-- Each block makes one definition, under its name. -/
  definitions : ∀ x, (d.chunks.definitionsOf x).filter (·.location.file == f)
    = (blocks.filter (·.name == x)).map (Fences.definition f)
  /-- A line between the fences of a block is one line of the chunk of that name. -/
  inside : ∀ b ∈ blocks, ∀ n, b.first < n → n < b.last → ∃ text,
    lines[n - 1]? = some text ∧ d.chunks.located ⟨f, n⟩ = [(b.name, ⟨⟨f, n⟩, text⟩)]
  /-- Any other line is a line of no chunk. -/
  outside : ∀ n, (∀ b ∈ blocks, ¬ (b.first < n ∧ n < b.last)) → d.chunks.located ⟨f, n⟩ = []

end Document

namespace Scan

variable {read : Path → Except Fault Text} {scan : Scan} {ps : List Pass}

/-- What the chunks have at a location is what the scanner took from the line there. -/
theorem Passed.filter_linesOf (h : scan.Passed read ps)
    (hdistinct : (ps.map Pass.file).Pairwise fun p q => (p == q) = false)
    {v : Scanner × Text} (hv : v ∈ ps.flatMap Pass.visits) (x : ChunkName) :
    (scan.document.chunks.linesOf x).filter (·.location == Scanner.place v)
      = v.1.taken v.2 x := by
  rw [h.lines]
  exact filter_flatMap_place (fun _ _ => Scanner.location_of_taken) hdistinct hv

/-- A line between the fences of a block is one line of the chunk of that name. -/
theorem Passed.located_inside (h : scan.Passed read ps)
    (hdistinct : (ps.map Pass.file).Pairwise fun p q => (p == q) = false) {p : Pass}
    (hp : p ∈ ps) {blocks : List Fences} (hblocks : Fenced p.start p.lines blocks) {b : Fences}
    (hb : b ∈ blocks) {n : Nat} (hfirst : b.first < n) (hlast : n < b.last) :
    ∃ text, p.lines[n - 1]? = some text ∧
      scan.document.chunks.located ⟨p.file, n⟩ = [(b.name, ⟨⟨p.file, n⟩, text⟩)] := by
  have hn : n - 1 < p.lines.length := by
    have := (hblocks.le_of_mem hb).2
    omega
  obtain ⟨v, hv, htext, hnumber, hfile⟩ := Pass.exists_visit (h.of p hp)
    (List.getElem?_eq_getElem hn)
  have hplace : Scanner.place v = ⟨p.file, n⟩ := by
    rw [Scanner.place, hfile, hnumber]
    congr 1
    omega
  have hcontent := (hblocks.content v hv b.name).mpr ⟨b, hb, rfl, by omega, by omega⟩
  have hmem : v ∈ ps.flatMap Pass.visits := List.mem_flatMap.mpr ⟨p, hp, hv⟩
  refine ⟨p.lines[n - 1], List.getElem?_eq_getElem hn, ?_⟩
  rw [← hplace]
  refine ChunkTable.located_of_unique ?_ fun y hy => ?_
  · rw [h.filter_linesOf hdistinct hmem, Scanner.taken, if_pos hcontent, htext]
    rfl
  · rw [h.filter_linesOf hdistinct hmem, Scanner.taken,
      if_neg fun hy' => hy (hy'.2.2.symm.trans hcontent.2.2)]

/-- Any other line is a line of no chunk. -/
theorem Passed.located_outside (h : scan.Passed read ps)
    (hdistinct : (ps.map Pass.file).Pairwise fun p q => (p == q) = false) {p : Pass}
    (hp : p ∈ ps) {blocks : List Fences} (hblocks : Fenced p.start p.lines blocks) {n : Nat}
    (hno : ∀ b ∈ blocks, ¬ (b.first < n ∧ n < b.last)) :
    scan.document.chunks.located ⟨p.file, n⟩ = [] := by
  rw [ChunkTable.located_eq]
  refine List.flatMap_eq_nil_iff.mpr fun y _ => ?_
  rw [List.map_eq_nil_iff]
  refine List.filter_eq_nil_iff.mpr fun l hl heq => ?_
  obtain ⟨hfile, hline⟩ := Location.beq_iff.mp heq
  -- the line is one that this pass has met, and so one between the fences of a block
  have hhere : l ∈ p.visits.flatMap fun v => v.1.taken v.2 y := by
    rw [← filter_flatMap_file (fun _ _ => Scanner.location_of_taken) hdistinct hp, ← h.lines]
    exact List.mem_filter.mpr ⟨hl, hfile⟩
  obtain ⟨v, hv, hl⟩ := List.mem_flatMap.mp hhere
  obtain ⟨hin, hfence, hname, rfl⟩ := Scanner.mem_taken.mp hl
  obtain ⟨b, hb, -, hfirst, hlast⟩ := (hblocks.content v hv y).mp ⟨hin, hfence, hname⟩
  have hline : v.1.lineNumber + 1 = n := hline
  exact hno b hb ⟨by omega, by omega⟩

/-- A pass of a run accounts for its document. -/
theorem Passed.accounts (h : scan.Passed read ps)
    (hdistinct : (ps.map Pass.file).Pairwise fun p q => (p == q) = false) {p : Pass}
    (hp : p ∈ ps) : ∃ blocks, scan.document.Accounts p.file p.lines blocks := by
  have hof := h.of p hp
  obtain ⟨blocks, hblocks⟩ := p.exists_fenced hof
  obtain ⟨hstarts, hends, -, -⟩ := Shown.mk.inj (h.shown p hp)
  refine ⟨blocks, ?_⟩
  constructor
  · intro name first last
    constructor
    · intro hblock
      exact hblocks.complete hof.atStart hblock
    · rintro ⟨b, hb, rfl, rfl, rfl⟩
      exact hblocks.sound b hb
  · rw [hstarts]
    exact hblocks.starts
  · rw [hends]
    exact hblocks.ends
  · exact hblocks.increasing
  · intro x
    rw [h.definitions, filter_flatMap_file (fun _ _ => Scanner.location_of_defined) hdistinct hp]
    exact hblocks.definitions x
  · intro b hb n hfirst hlast
    exact h.located_inside hdistinct hp hblocks hb hfirst hlast
  · intro n hno
    exact h.located_outside hdistinct hp hblocks hno

/-- **Every line is accounted for.**  After a scan that did not fail, each input was read,
    and the document set accounts for its lines: the openings and closings recorded
    are those of its blocks, in turns; each block makes one definition under its name;
    a line between the fences of a block stands in exactly one chunk, that of the
    block's name, once and with its text, and any other line stands in none.  Lines and
    definitions of every chunk come from the inputs, in the order of the scan. -/
theorem accounts_for_every_line (read : Path → Except Fault Text) (root : Path) (book : Bool)
    {doc : Document} (hdoc : (run read root book).document = doc)
    (hok : (run read root book).failure = none) :
    (∀ f ∈ doc.inputs, ∃ content blocks, read f = .ok content ∧
      doc.Accounts f content.lines blocks) ∧
    ∀ x,
      ((doc.chunks.linesOf x).Pairwise fun l l' => l.location.Before doc.inputs l'.location) ∧
      ((doc.chunks.definitionsOf x).Pairwise fun d d' =>
        d.location.Before doc.inputs d'.location) ∧
      (∀ l ∈ doc.chunks.linesOf x, l.location.file ∈ doc.inputs) ∧
      (∀ d ∈ doc.chunks.definitionsOf x, d.location.file ∈ doc.inputs) := by
  subst hdoc
  obtain ⟨hdistinct, ps, hfiles, hps⟩ := passed_run hok
  rw [Document.Distinct, ← hfiles] at hdistinct
  rw [← hfiles]
  refine ⟨?_, fun x => ⟨?_, ?_, ?_, ?_⟩⟩
  · intro f hf
    obtain ⟨p, hp, rfl⟩ := List.mem_map.mp hf
    obtain ⟨blocks, hblocks⟩ := hps.accounts hdistinct hp
    obtain ⟨content, hread, hlines⟩ := (hps.of p hp).read_eq
    exact ⟨content, blocks, hread, hlines ▸ hblocks⟩
  · rw [hps.lines]
    refine pairwise_flatMap_place (fun _ _ => Scanner.location_of_taken) fun v => ?_
    rw [Scanner.taken]
    split <;> simp
  · rw [hps.definitions]
    refine pairwise_flatMap_place (fun _ _ => Scanner.location_of_defined) fun v => ?_
    rw [Scanner.defined]
    split <;> simp
  · intro l hl
    rw [hps.lines] at hl
    exact file_mem_of_out (fun _ _ => Scanner.location_of_taken) hl
  · intro d hd
    rw [hps.definitions] at hd
    exact file_mem_of_out (fun _ _ => Scanner.location_of_defined) hd

/-- A book of two documents.  The root has a block and a link; the chapter goes on with
    the chunk of the root, where a longer run of backticks and a heading are code. -/
def pamphlet (p : Path) : Except Fault Text :=
  if p.spelling = ['b'] then .ok "# B\n```a.x\nx\n```\n[c](c.md)\n".toList
  else if p.spelling = ['c', '.', 'm', 'd'] then
    .ok "```a.x\n````\n# y\n```\nprose\n``` b.x \n```".toList
  else .error .noSuchFile

theorem pamphlet_accounted :
    (run pamphlet ⟨['b']⟩ true).failure = none ∧
    ∃ f ∈ (run pamphlet ⟨['b']⟩ true).document.inputs, f.spelling = ['c', '.', 'm', 'd'] ∧
      (∃ content blocks, pamphlet f = .ok content ∧
        (run pamphlet ⟨['b']⟩ true).document.Accounts f content.lines blocks) ∧
      ((run pamphlet ⟨['b']⟩ true).document.chunks.linesOf ⟨['a', '.', 'x']⟩).Pairwise
        fun l l' => l.location.Before (run pamphlet ⟨['b']⟩ true).document.inputs l'.location := by
  have hok : (run pamphlet ⟨['b']⟩ true).failure = none := by decide +kernel
  have hinput : ['c', '.', 'm', 'd'] ∈
      (run pamphlet ⟨['b']⟩ true).document.inputs.map Path.spelling := by decide +kernel
  obtain ⟨f, hf, hspelling⟩ := List.mem_map.mp hinput
  obtain ⟨haccount, horder⟩ := accounts_for_every_line pamphlet ⟨['b']⟩ true rfl hok
  exact ⟨hok, f, hf, hspelling, haccount f hf, (horder _).1⟩

end Scan

end Literate
