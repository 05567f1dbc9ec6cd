import Literate.Proofs.Document.Fences
import Mathlib.Data.List.Basic

/-! # A document as its passages

    A document is cut into passages from its first line on: a line outside of
    every block is a passage of its own, and a fence that opens a block takes
    everything up to the fence that closes it.  This says without a scanner what
    the blocks of a document are and which of its lines stand outside of them.
    Behind lines that end outside of every block the passages begin anew
    (`passages_append`).

    What the scanner gives out line by line is what the passages give out one
    after the other (`Scanner.GivesOut.flatMap_visits`), for anything that depends on the
    line, on whether a chunk is open and on its name alone.  So the lines that a
    pass takes for a chunk are those of the blocks of its name
    (`Scanner.map_text_taken`), and the chunks that a run finds are those that
    have a block in one of its documents (`Scan.mem_keys_run`). -/

namespace Literate

/-- A block without its fences: its name, and the lines between them. -/
structure CodeBlock where
  name : ChunkName
  lines : List Text
  deriving DecidableEq

/-- A passage of a document: a line outside of blocks that opens none, or a block with the
    line that opens it. -/
inductive Passage where
  | line (text : Text)
  | block (opening : Text) (code : CodeBlock)
  deriving DecidableEq

/-- The passages of a document, from its first line on.  A block that nothing closes takes all
    lines that are left. -/
def passages : List Text → List Passage
  | [] => []
  | line :: rest =>
    match Line.fenceOpen? line with
    | none => .line line :: passages rest
    | some name =>
      .block line ⟨name, rest.takeWhile (· != fence)⟩
        :: passages ((rest.dropWhile (· != fence)).drop 1)
  termination_by lines => lines.length
  decreasing_by
    · simp
    · have hle := (List.dropWhile_sublist (l := rest) (· != fence)).length_le
      simp only [List.length_cons, List.length_drop]
      omega

/-- The line that a passage begins with, which stands outside of every block. -/
def Passage.head : Passage → Text
  | .line text => text
  | .block opening _ => opening

/-- The block of a passage. -/
def Passage.code? : Passage → Option CodeBlock
  | .line _ => none
  | .block _ code => some code

/-- The blocks of a document, in their order. -/
def codeBlocks (lines : List Text) : List CodeBlock :=
  (passages lines).filterMap Passage.code?

/-- The lines of a document that stand outside of every block, with those that open one. -/
def outsideLines (lines : List Text) : List Text :=
  (passages lines).map Passage.head

/-! ## Documents put together -/

theorem passages_nil : passages [] = [] := by
  rw [passages]

theorem passages_prose {line : Text} (h : Line.fenceOpen? line = none) (rest : List Text) :
    passages (line :: rest) = .line line :: passages rest := by
  rw [passages, h]

theorem passages_block {opening : Text} {name : ChunkName} {inside : List Text}
    (hopen : Line.fenceOpen? opening = some name) (hno : fence ∉ inside) (rest : List Text) :
    passages (opening :: inside ++ [fence] ++ rest)
      = .block opening ⟨name, inside⟩ :: passages rest := by
  have hinside : ∀ line ∈ inside, (line != fence) = true := by
    intro line hline
    exact bne_iff_ne.mpr fun heq => hno (heq ▸ hline)
  rw [List.cons_append, List.cons_append, passages, hopen, List.append_assoc]
  simp [List.takeWhile_append_of_pos hinside, List.dropWhile_append_of_pos hinside]

/-- Behind lines that end outside of every block, the passages begin anew. -/
theorem passages_append {before : List Text} (h : Outside before) (rest : List Text) :
    passages (before ++ rest) = passages before ++ passages rest := by
  induction h generalizing rest with
  | nil => rw [List.nil_append, passages_nil, List.nil_append]
  | prose _ hline ih =>
      rw [List.append_assoc, ih, ih, List.singleton_append, passages_prose hline,
        passages_prose hline, passages_nil, List.append_assoc, List.singleton_append]
  | block _ hopen hno ih =>
      have hclosed := passages_block hopen hno []
      rw [List.append_nil, passages_nil] at hclosed
      rw [List.append_assoc _ _ [fence], List.append_assoc, ih, ih, passages_block hopen hno,
        hclosed, List.append_assoc, List.singleton_append]

/-- A line behind lines that end outside of every block begins a passage, and that is a block if
    the line opens one. -/
theorem exists_passage {lines : List Text} {n : Nat} {line : Text} (hline : lines[n]? = some line)
    (hout : Outside (lines.take n)) :
    ∃ p ∈ passages lines, p.head = line ∧
      ∀ name, Line.fenceOpen? line = some name → ∃ code, p.code? = some code ∧ code.name = name := by
  have hsplit : lines = lines.take n ++ line :: lines.drop (n + 1) := by
    obtain ⟨hlt, rfl⟩ := List.getElem?_eq_some_iff.mp hline
    rw [← List.drop_eq_getElem_cons hlt, List.take_append_drop]
  rw [hsplit, passages_append hout]
  cases hopen : Line.fenceOpen? line with
  | none =>
      rw [passages_prose hopen]
      exact ⟨.line line, by simp, rfl, nofun⟩
  | some name =>
      rw [passages, hopen]
      refine ⟨_, List.mem_append_right _ List.mem_cons_self, rfl, ?_⟩
      intro name' hname
      exact ⟨_, rfl, Option.some.inj hname⟩

/-! ## One pass, passage by passage -/

/-- Lines up to the first closing fence, and what is behind them. -/
theorem exists_inside (rest : List Text) :
    fence ∉ rest.takeWhile (· != fence) ∧
      (rest = rest.takeWhile (· != fence) ∧ (rest.dropWhile (· != fence)).drop 1 = [] ∨
        rest = rest.takeWhile (· != fence) ++ [fence]
          ++ (rest.dropWhile (· != fence)).drop 1) := by
  have hsplit := List.takeWhile_append_dropWhile (p := (· != fence)) (l := rest)
  have hhead := List.head?_dropWhile_not (· != fence) rest
  constructor
  · intro hmem
    have hno := List.all_eq_true.mp (List.all_takeWhile (p := (· != fence)) (l := rest)) _ hmem
    simp at hno
  · cases hdrop : rest.dropWhile (· != fence) with
    | nil =>
        rw [hdrop, List.append_nil] at hsplit
        exact Or.inl ⟨hsplit.symm, rfl⟩
    | cons c after =>
        rw [hdrop] at hsplit hhead
        have hc : c = fence := by simpa using hhead
        subst hc
        right
        rw [List.append_assoc]
        exact hsplit.symm

namespace Scanner

/-- What the scanner gives out for a line depends on the line and the open chunk alone, and a
    closing fence gives nothing. -/
structure GivesOut {α : Type} (out : Scanner → Text → List α) (outside : Text → List α)
    (opening : Text → ChunkName → List α) (inside : ChunkName → Text → List α) : Prop where
  line : ∀ s line, inChunk s = false → Line.fenceOpen? line = none → out s line = outside line
  opens : ∀ s line name, inChunk s = false → Line.fenceOpen? line = some name →
    out s line = opening line name
  between : ∀ s line, inChunk s = true → line ≠ fence → out s line = inside s.chunkName line
  closes : ∀ s, inChunk s = true → out s fence = []

/-- What the scanner gives out along a document is what its passages give out. -/
theorem GivesOut.flatMap_visits {α : Type} {out : Scanner → Text → List α}
    {outside : Text → List α} {opening : Text → ChunkName → List α}
    {inside : ChunkName → Text → List α} (h : GivesOut out outside opening inside)
    (lines : List Text) {s : Scanner} (hs : s.inChunk = false) :
    ((s.visits lines).flatMap fun v => out v.1 v.2)
      = (passages lines).flatMap fun
          | .line text => outside text
          | .block text code =>
            opening text code.name ++ code.lines.flatMap (inside code.name) := by
  fun_induction passages lines generalizing s with
  | case1 => rfl
  | case2 line rest hnone ih =>
      rw [visits, List.flatMap_cons, List.flatMap_cons, h.line s line hs hnone,
        ih (no_fence_outside hs hnone).2]
  | case3 line rest name hname ih =>
      obtain ⟨hno, hrest⟩ := exists_inside rest
      generalize rest.takeWhile (· != fence) = between at hno hrest ⊢
      generalize (rest.dropWhile (· != fence)).drop 1 = after at hrest ih ⊢
      have hnext : s.next line = (s.forward 1).enter name := by
        rw [next, kind_open hs hname]
        rfl
      -- between the fences the chunk of the block is open
      have hbetween : ((((s.forward 1).enter name).visits between).flatMap fun v => out v.1 v.2)
          = between.flatMap (inside name) := by
        conv => rhs; rw [← map_snd_visits ((s.forward 1).enter name) between, List.flatMap_map]
        refine List.flatMap_congr fun v hv => ?_
        obtain ⟨hfence, n, -, hstate⟩ := mem_visits_inside rfl hno hv
        have hin : v.1.inChunk = true := by rw [hstate]; rfl
        have hchunk : v.1.chunkName = name := by rw [hstate]; rfl
        show out v.1 v.2 = inside name v.2
        rw [h.between v.1 v.2 hin hfence, hchunk]
      rcases hrest with ⟨rfl, rfl⟩ | rfl
      · rw [visits, hnext, List.flatMap_cons, List.flatMap_cons, hbetween,
          h.opens s line name hs hname, passages]
        exact (List.append_nil _).symm
      · have hblock := foldl_next_block hs hname hno
        have hlast := h.closes (((s.forward 1).enter name).forward between.length) rfl
        rw [← List.cons_append, ← List.cons_append, visits_append, visits_block hs hname hno,
          List.flatMap_append, List.flatMap_cons, List.flatMap_append, hbetween,
          List.flatMap_singleton, hlast, h.opens s line name hs hname, ih hblock, List.flatMap_cons,
          List.append_nil]

/-- The texts that a pass takes for a chunk are the lines of the blocks of its name. -/
theorem map_text_taken (lines : List Text) {s : Scanner} (hs : s.inChunk = false) (x : ChunkName) :
    (((s.visits lines).flatMap fun v => v.1.taken v.2 x).map ChunkLine.text)
      = ((codeBlocks lines).filter (·.name = x)).flatMap CodeBlock.lines := by
  have htaken : ∀ (s : Scanner) (line : Text), (s.taken line x).map ChunkLine.text
      = if s.inChunk = true ∧ line ≠ fence ∧ s.chunkName = x then [line] else [] := by
    intro s line
    rw [taken]
    split <;> rfl
  have hgives : GivesOut (fun s line => (s.taken line x).map ChunkLine.text) (fun _ => [])
      (fun _ _ => []) (fun name line => if name = x then [line] else []) := by
    constructor
    · intro s line hout _
      rw [htaken, if_neg fun h => by rw [hout] at h; cases h.1]
    · intro s line _ hout _
      rw [htaken, if_neg fun h => by rw [hout] at h; cases h.1]
    · intro s line hin hfence
      rw [htaken]
      simp [hin, hfence]
    · intro s _
      rw [htaken, if_neg fun h => h.2.1 rfl]
  rw [List.map_flatMap, hgives.flatMap_visits lines hs, codeBlocks]
  induction passages lines with
  | nil => rfl
  | cons passage more ih =>
      rw [List.flatMap_cons, ih]
      cases passage with
      | line text => rfl
      | block text code => by_cases hx : code.name = x <;> simp [Passage.code?, hx]

/-- The lines outside of blocks are those that a pass meets with no chunk open. -/
theorem outsideLines_eq (lines : List Text) {s : Scanner} (hs : s.inChunk = false) :
    outsideLines lines = (s.visits lines).flatMap fun v => if v.1.inChunk then [] else [v.2] := by
  have hgives : GivesOut (fun s line => if s.inChunk then [] else [line]) (fun line => [line])
      (fun line _ => [line]) (fun _ _ => []) := by
    constructor
    · intro s line hout _
      rw [hout, if_neg Bool.false_ne_true]
    · intro s line _ hout _
      rw [hout, if_neg Bool.false_ne_true]
    · intro s line hin _
      rw [hin, if_pos rfl]
    · intro s hin
      rw [hin, if_pos rfl]
  rw [hgives.flatMap_visits lines hs, outsideLines]
  induction passages lines with
  | nil => rfl
  | cons passage more ih =>
      rw [List.map_cons, List.flatMap_cons, ih]
      cases passage with
      | line text => rfl
      | block opening code => simp [Passage.head]

/-- The chunks that a pass opens are those of the blocks, in their order. -/
theorem flatMap_opened (lines : List Text) {s : Scanner} (hs : s.inChunk = false) :
    ((s.visits lines).flatMap fun v => (v.1.opened v.2).toList)
      = (codeBlocks lines).map CodeBlock.name := by
  have hgives : GivesOut (fun s line => (s.opened line).toList) (fun _ => [])
      (fun _ name => [name]) (fun _ _ => []) := by
    constructor
    · intro s line hout hnone
      rw [(no_fence_outside hout hnone).1.1]
      rfl
    · intro s line name hout hname
      rw [opened, kind_open hout hname]
      rfl
    · intro s line hin hfence
      rw [(no_fence_inside hin hfence).1]
      rfl
    · intro s hin
      rw [opened, kind_fence hin]
      rfl
  rw [hgives.flatMap_visits lines hs, codeBlocks]
  induction passages lines with
  | nil => rfl
  | cons passage more ih =>
      rw [List.flatMap_cons, ih]
      cases passage with
      | line text => rfl
      | block text code => simp [Passage.code?]

end Scanner

/-! ## The chunks of a run -/

theorem ChunkTable.mem_keys_of_definition {t : ChunkTable} {name : ChunkName}
    (h : t.definitionsOf name ≠ []) : name ∈ t.keys := by
  cases hget : t.get? name with
  | some chunk => exact OrderedMap.mem_keys_iff.mpr ⟨chunk, hget⟩
  | none =>
      refine absurd ?_ h
      rw [definitionsOf]
      rw [hget]
      rfl

namespace Document

/-- Under a name that comes into the table with a line, the line gives the chunk a line or a
    definition. -/
theorem mem_keys_record {d : Document} {s : Scanner} {line : Text} {name : ChunkName}
    (h : name ∈ (d.record s line).chunks.keys) :
    name ∈ d.chunks.keys ∨ s.taken line name ≠ [] ∨ s.defined line name ≠ [] := by
  rw [record_eq] at h
  rcases s.kind_cases line with ⟨-, -, hk⟩ | ⟨hin, hfence, hk⟩ | ⟨opened, -, -, hk⟩ | ⟨-, -, hk⟩
  · simp only [recordChunk, hk] at h
    exact Or.inl h
  · have hadd : name ∈ (d.chunks.addLine s.chunkName ⟨(s.next line).location, line⟩).keys := by
      rcases hk with hk | ⟨ref, hk⟩
      · simp only [recordChunk, hk] at h
        exact h
      · simp only [recordChunk, hk] at h
        exact h
    rw [ChunkTable.addLine, OrderedMap.keys_alter, mem_addNew] at hadd
    rcases hadd with hold | rfl
    · exact Or.inl hold
    · right
      left
      rw [Scanner.taken, if_pos ⟨hin, hfence, rfl⟩]
      exact List.cons_ne_nil _ _
  · have hadd : name ∈ (d.chunks.addDefinition opened
        ⟨(s.next line).location, (s.next line).current⟩).keys := by
      simp only [recordChunk, hk, recordStart] at h
      split at h <;> exact h
    rw [ChunkTable.addDefinition, OrderedMap.keys_alter, mem_addNew] at hadd
    rcases hadd with hold | rfl
    · exact Or.inl hold
    · right
      right
      rw [Scanner.defined, Scanner.opened, hk, if_pos rfl]
      exact List.cons_ne_nil _ _
  · rcases hk with hk | ⟨level, text, hk⟩
    · simp only [recordChunk, hk] at h
      exact Or.inl h
    · simp only [recordChunk, hk] at h
      exact Or.inl h

/-- Each chunk of the table has a line or a definition. -/
def Populated (d : Document) : Prop :=
  ∀ name ∈ d.chunks.keys, d.chunks.linesOf name ≠ [] ∨ d.chunks.definitionsOf name ≠ []

theorem Populated.record {d : Document} (h : d.Populated) (s : Scanner) (line : Text) :
    (d.record s line).Populated := by
  intro name hname
  rw [linesOf_record, definitionsOf_record]
  rcases mem_keys_record hname with hold | htaken | hdefined
  · rcases h name hold with hlines | hdefinitions
    · exact Or.inl (List.append_ne_nil_of_left_ne_nil hlines _)
    · exact Or.inr (List.append_ne_nil_of_left_ne_nil hdefinitions _)
  · exact Or.inl (List.append_ne_nil_of_right_ne_nil _ htaken)
  · exact Or.inr (List.append_ne_nil_of_right_ne_nil _ hdefined)

end Document

/-- What each line keeps is kept by a document. -/
theorem Scanner.foldl_step_induct {P : Document → Prop}
    (hstep : ∀ d s line, P d → P (Document.record d s line)) (lines : List Text) (s : Scanner)
    {d : Document} (h : P d) : P (lines.foldl step (s, d)).2 := by
  induction lines generalizing s d with
  | nil => exact h
  | cons line lines ih => exact ih (s.next line) (hstep d s line h)

namespace Scan

variable {read : Path → Except Fault Text} {root : Path} {book : Bool}

/-- What each line keeps holds behind a run that did not fail, if it holds before the first
    line. -/
theorem run_induct {P : Document → Prop}
    (hstart : P (Document.empty.schedule root.normalize))
    (hstep : ∀ d s line, P d → P (Document.record d s line))
    (hok : (run read root book).failure = none) : P (run read root book).document := by
  have hfile : ∀ (follow : Bool) (scan : Scan) (path : Path),
      (file read follow scan path).failure = none → P scan.document →
        P (file read follow scan path).document := by
    intro follow scan path hok h
    obtain ⟨content, -, -, -, heq⟩ := file_eq hok
    rw [heq]
    exact Scanner.foldl_step_induct hstep content.lines _ h
  have hfiles : ∀ (paths : List Path) (scan : Scan),
      (paths.foldl (file read false) scan).failure = none → P scan.document →
        P (paths.foldl (file read false) scan).document := by
    intro paths
    induction paths with
    | nil => exact fun _ _ h => h
    | cons path paths ih =>
        intro scan hok h
        exact ih _ hok (hfile false scan path (failure_of_foldl hok) h)
  rw [run] at hok ⊢
  exact hfiles _ _ hok (hfile book _ _ (failure_of_foldl hok) hstart)

/-- The blocks of documents, in the order of the documents. -/
def blocksOf (read : Path → Except Fault Text) (inputs : List Path) : List CodeBlock :=
  inputs.flatMap fun f =>
    match read f with
    | .ok content => codeBlocks content.lines
    | .error _ => []

variable {scan : Scan} {ps : List Pass}

/-- The passes of a scan meet the blocks of their documents. -/
theorem Passed.blocksOf_eq (h : scan.Passed read ps) :
    blocksOf read (ps.map Pass.file) = ps.flatMap fun p => codeBlocks p.lines := by
  rw [blocksOf, List.flatMap_map]
  refine List.flatMap_congr fun p hp => ?_
  obtain ⟨content, hread, hlines⟩ := (h.of p hp).read_eq
  rw [hread, ← hlines]

/-- The texts of a chunk are the lines of the blocks of its name, in the order of the scan. -/
theorem Passed.map_text_linesOf (h : scan.Passed read ps) (x : ChunkName) :
    (scan.document.chunks.linesOf x).map ChunkLine.text
      = ((blocksOf read (ps.map Pass.file)).filter (·.name = x)).flatMap CodeBlock.lines := by
  rw [h.lines, h.blocksOf_eq, List.flatMap_assoc, List.map_flatMap, List.filter_flatMap,
    List.flatMap_assoc]
  refine List.flatMap_congr fun p hp => ?_
  exact Scanner.map_text_taken p.lines (h.of p hp).atStart.inChunk_eq x

/-- A name has a definition if and only if a block has the name. -/
theorem Passed.definitionsOf_ne_nil_iff (h : scan.Passed read ps) (x : ChunkName) :
    scan.document.chunks.definitionsOf x ≠ [] ↔
      x ∈ (blocksOf read (ps.map Pass.file)).map CodeBlock.name := by
  have hopened : (blocksOf read (ps.map Pass.file)).map CodeBlock.name
      = (ps.flatMap Pass.visits).flatMap fun v => (v.1.opened v.2).toList := by
    rw [h.blocksOf_eq, List.map_flatMap, List.flatMap_assoc]
    refine List.flatMap_congr fun p hp => ?_
    exact (Scanner.flatMap_opened p.lines (h.of p hp).atStart.inChunk_eq).symm
  rw [hopened, h.definitions, Ne, List.flatMap_eq_nil_iff, List.mem_flatMap]
  constructor
  · intro hsome
    refine Classical.byContradiction fun hno => hsome fun v hv => if_neg fun hx => ?_
    exact hno ⟨v, hv, Option.mem_toList.mpr hx⟩
  · rintro ⟨v, hv, hx⟩ hnone
    have hempty := hnone v hv
    rw [Scanner.defined, if_pos (Option.mem_toList.mp hx)] at hempty
    exact absurd hempty (List.cons_ne_nil _ _)

/-- **The chunks of a run.**  Behind a run that did not fail, the chunks are those that have a
    block in one of its documents. -/
theorem mem_keys_run (hok : (run read root book).failure = none) {name : ChunkName} :
    name ∈ (run read root book).document.chunks.keys ↔
      name ∈ (blocksOf read (run read root book).document.inputs).map CodeBlock.name := by
  obtain ⟨-, ps, hfiles, hps⟩ := passed_run hok
  have hpopulated : (run read root book).document.Populated :=
    run_induct (fun _ h => nomatch h) (fun _ s line h => h.record s line) hok
  rw [← hfiles, ← hps.definitionsOf_ne_nil_iff]
  constructor
  · intro hname
    rcases hpopulated name hname with hlines | hdefinitions
    · -- a line of the chunk stands in a block, which makes a definition
      have htexts := hps.map_text_linesOf name
      rw [hps.definitionsOf_ne_nil_iff]
      refine Classical.byContradiction fun hno => hlines ?_
      have hblocks : (blocksOf read (ps.map Pass.file)).filter (·.name = name) = [] := by
        refine List.filter_eq_nil_iff.mpr fun b hb hname => hno ?_
        exact List.mem_map.mpr ⟨b, hb, of_decide_eq_true hname⟩
      rw [hblocks] at htexts
      exact List.map_eq_nil_iff.mp htexts
    · exact hdefinitions
  · exact ChunkTable.mem_keys_of_definition

end Scan

end Literate
