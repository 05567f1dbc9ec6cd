import Literate.Proofs.Document.Pass

/-! # The fences of a document

    The openings and closings that a pass records are the two columns of one
    list of blocks, whose fences follow each other down the document, and that
    list holds the blocks of the document and nothing else (`Pass.exists_fenced`).

    Lines that end outside of every block are prose and whole blocks, one behind
    the other (`Outside`), so the proof goes along that: a line of prose adds
    nothing (`Fenced.prose`), and a block adds itself (`Fenced.block`).  Between
    the fences of a block the scanner only counts (`Scanner.foldl_next_inside`),
    which is why no state inside a block needs a statement of its own. -/

namespace Literate

/-- A block as it is recorded: the lines of its fences, its name, and the section in
    which it stands. -/
structure Fences where
  first : Nat
  last : Nat
  name : ChunkName
  within : Section

namespace Fences

/-- What the opening fence records. -/
def opening (b : Fences) : Nat × ChunkName :=
  (b.first, b.name)

/-- What the closing fence records. -/
def closing (b : Fences) : Nat × ChunkEnd :=
  (b.last, ⟨b.name, b.within⟩)

/-- The definition that a block of a document makes. -/
def definition (file : Path) (b : Fences) : Definition :=
  ⟨⟨file, b.first⟩, b.within⟩

end Fences

theorem entriesOf_cons {ν : Type} (event : Scanner → Text → Option ν) (v : Scanner × Text)
    (visits : List (Scanner × Text)) :
    entriesOf event (v :: visits)
      = ((event v.1 v.2).map (v.1.lineNumber + 1, ·)).toList ++ entriesOf event visits := by
  rw [entriesOf, List.filterMap_cons]
  cases event v.1 v.2 <;> rfl

theorem entriesOf_eq_nil {ν : Type} {event : Scanner → Text → Option ν}
    {visits : List (Scanner × Text)} (h : ∀ v ∈ visits, event v.1 v.2 = none) :
    entriesOf event visits = [] := by
  refine List.filterMap_eq_nil_iff.mpr fun v hv => ?_
  rw [h v hv]
  rfl

theorem entriesOf_append {ν : Type} (event : Scanner → Text → Option ν)
    (visits more : List (Scanner × Text)) :
    entriesOf event (visits ++ more) = entriesOf event visits ++ entriesOf event more :=
  List.filterMap_append

namespace Scanner

variable {s : Scanner}

theorem visits_append (s : Scanner) (lines more : List Text) :
    s.visits (lines ++ more) = s.visits lines ++ (lines.foldl next s).visits more := by
  induction lines generalizing s with
  | nil => rfl
  | cons line lines ih =>
      rw [List.cons_append, visits, ih]
      rfl

theorem lineNumber_foldl_next (s : Scanner) (lines : List Text) :
    (lines.foldl next s).lineNumber = s.lineNumber + lines.length := by
  induction lines generalizing s with
  | nil => rfl
  | cons line lines ih =>
      rw [List.foldl_cons, ih, next_lineNumber, List.length_cons]
      omega

/-- Each line is met behind as many lines as stand before it. -/
theorem lineNumber_of_mem_visits {lines : List Text} {v : Scanner × Text}
    (hv : v ∈ s.visits lines) :
    s.lineNumber ≤ v.1.lineNumber ∧ v.1.lineNumber < s.lineNumber + lines.length := by
  obtain ⟨before, rest, hlines, hstate⟩ := mem_visits hv
  rw [hstate, lineNumber_foldl_next, hlines, List.length_append, List.length_cons]
  omega

/-! ## Inside a block -/

/-- The same state, some lines further down. -/
def forward (s : Scanner) (n : Nat) : Scanner :=
  { s with lineNumber := s.lineNumber + n }

/-- A line of an open chunk is counted, and that is all. -/
theorem next_inside {line : Text} (hin : s.inChunk = true) (hline : line ≠ fence) :
    s.next line = s.forward 1 := by
  rcases s.kind_cases line with ⟨-, heq, -⟩ | ⟨-, -, hk⟩ | ⟨name, hout, -⟩ | ⟨hout, -⟩
  · exact absurd heq hline
  · rw [next, forward]
    rcases hk with hk | ⟨ref, hk⟩ <;> rw [hk]
  · rw [hin] at hout
    cases hout
  · rw [hin] at hout
    cases hout

/-- Without a closing fence the scanner only counts the lines of an open chunk. -/
theorem foldl_next_inside {inside : List Text} (hin : s.inChunk = true)
    (hno : fence ∉ inside) :
    inside.foldl next s = s.forward inside.length := by
  induction inside generalizing s with
  | nil => rfl
  | cons line inside ih =>
      have hline : line ≠ fence := fun heq => hno (heq ▸ List.mem_cons_self)
      have hno' : fence ∉ inside := fun hmem => hno (List.mem_cons_of_mem _ hmem)
      have hone : (s.forward 1).forward inside.length = s.forward (inside.length + 1) := by
        simp only [forward, Nat.add_assoc, Nat.add_comm 1]
      rw [List.foldl_cons, next_inside hin hline, ih (s := s.forward 1) hin hno', hone]
      rfl

/-- The lines of an open chunk are met in that chunk, one after the other. -/
theorem mem_visits_inside {inside : List Text} (hin : s.inChunk = true)
    (hno : fence ∉ inside) {v : Scanner × Text} (hv : v ∈ s.visits inside) :
    v.2 ≠ fence ∧ ∃ n < inside.length, v.1 = s.forward n := by
  obtain ⟨before, rest, hlines, hstate⟩ := mem_visits hv
  have hbefore : fence ∉ before := by
    intro hmem
    exact hno (hlines ▸ List.mem_append_left _ hmem)
  refine ⟨?_, before.length, ?_, ?_⟩
  · intro heq
    exact hno (hlines ▸ List.mem_append_right _ (heq ▸ List.mem_cons_self))
  · rw [hlines, List.length_append, List.length_cons]
    omega
  · rw [hstate, foldl_next_inside hin hbefore]

/-- Before the first line no chunk is open. -/
theorem At.inChunk_eq (h : At [] s) : s.inChunk = false := by
  refine Bool.eq_false_iff.mpr fun hin => ?_
  obtain ⟨before, opening, inside, hnil, -⟩ := h.inside hin
  exact absurd hnil.symm (by simp)

/-! ## Which lines are fences -/

/-- A line that is neither fence records no block. -/
theorem no_fence {line : Text} (hopen : ∀ name, s.kind line ≠ .chunkOpen name)
    (hclose : s.kind line ≠ .chunkClose) :
    s.opened line = none ∧ s.closed line = none ∧ ∀ x, s.defined line x = [] := by
  have hopened : s.opened line = none := by
    rw [opened]
    cases hk : s.kind line with
    | chunkOpen name => exact absurd hk (hopen name)
    | _ => rfl
  refine ⟨hopened, ?_, fun x => ?_⟩
  · rw [closed]
    cases hk : s.kind line with
    | chunkClose => exact absurd hk hclose
    | _ => rfl
  · rw [defined, hopened, if_neg (by simp)]

/-- Outside of chunks, neither does a line that opens none. -/
theorem no_fence_outside {line : Text} (hout : s.inChunk = false)
    (hline : Line.fenceOpen? line = none) :
    (s.opened line = none ∧ s.closed line = none ∧ ∀ x, s.defined line x = []) ∧
      (s.next line).inChunk = false := by
  rcases s.kind_cases line with ⟨hin, -⟩ | ⟨hin, -⟩ | ⟨name, -, hopen, -⟩ | ⟨-, -, hk⟩
  · rw [hout] at hin
    cases hin
  · rw [hout] at hin
    cases hin
  · rw [hline] at hopen
    cases hopen
  · refine ⟨?_, by rw [next_of_prose hk, hout]⟩
    rcases hk with hk | ⟨level, text, hk⟩
    · exact no_fence (by simp [hk]) (by simp [hk])
    · exact no_fence (by simp [hk]) (by simp [hk])

/-- Neither does a line of an open chunk. -/
theorem no_fence_inside {line : Text} (hin : s.inChunk = true) (hline : line ≠ fence) :
    s.opened line = none ∧ s.closed line = none ∧ ∀ x, s.defined line x = [] := by
  rcases s.kind_cases line with ⟨-, heq, -⟩ | ⟨-, -, hk⟩ | ⟨name, hout, -⟩ | ⟨hout, -⟩
  · exact absurd heq hline
  · rcases hk with hk | ⟨ref, hk⟩
    · exact no_fence (by simp [hk]) (by simp [hk])
    · exact no_fence (by simp [hk]) (by simp [hk])
  · rw [hin] at hout
    cases hout
  · rw [hin] at hout
    cases hout

theorem kind_fence (hin : s.inChunk = true) : s.kind fence = .chunkClose := by
  rw [kind, Line.kind, hin, if_pos rfl, if_pos rfl]

/-! ## A whole block -/

/-- The same state, with a chunk open. -/
def enter (s : Scanner) (name : ChunkName) : Scanner :=
  { s with inChunk := true, chunkName := name }

section Block

variable {opening : Text} {inside : List Text} {name : ChunkName}

theorem kind_open (hout : s.inChunk = false) (hopen : Line.fenceOpen? opening = some name) :
    s.kind opening = .chunkOpen name := by
  rw [kind, Line.kind, hout, if_neg Bool.false_ne_true, hopen]

/-- A whole block is its opening fence, its lines with the chunk open, and its closing
    fence. -/
theorem visits_block (hout : s.inChunk = false)
    (hopen : Line.fenceOpen? opening = some name) (hno : fence ∉ inside) :
    s.visits (opening :: inside ++ [fence])
      = (s, opening) :: (((s.forward 1).enter name).visits inside
          ++ [(((s.forward 1).enter name).forward inside.length, fence)]) := by
  have hnext : s.next opening = (s.forward 1).enter name := by
    rw [next, kind_open hout hopen]
    rfl
  rw [List.cons_append, visits, hnext, visits_append, foldl_next_inside rfl hno]
  rfl

theorem foldl_next_block (hout : s.inChunk = false)
    (hopen : Line.fenceOpen? opening = some name) (hno : fence ∉ inside) :
    ((opening :: inside ++ [fence]).foldl next s).inChunk = false := by
  have hnext : s.next opening = (s.forward 1).enter name := by
    rw [next, kind_open hout hopen]
    rfl
  have hin : (((s.forward 1).enter name).forward inside.length).inChunk = true := rfl
  rw [List.cons_append, List.foldl_cons, hnext, List.foldl_append, foldl_next_inside rfl hno]
  exact next_of_close (kind_fence hin)

/-- Between its fences a block records no other. -/
theorem no_fence_between (hno : fence ∉ inside) {v : Scanner × Text}
    (hv : v ∈ ((s.forward 1).enter name).visits inside) :
    v.1.opened v.2 = none ∧ v.1.closed v.2 = none ∧ ∀ x, v.1.defined v.2 x = [] := by
  obtain ⟨hline, n, -, hstate⟩ := mem_visits_inside rfl hno hv
  exact no_fence_inside (by rw [hstate]; rfl) hline

theorem opened_block (hout : s.inChunk = false)
    (hopen : Line.fenceOpen? opening = some name) (hno : fence ∉ inside) :
    entriesOf opened (s.visits (opening :: inside ++ [fence])) = [(s.lineNumber + 1, name)] := by
  have hfirst : s.opened opening = some name := by rw [opened, kind_open hout hopen]
  have hlast : (((s.forward 1).enter name).forward inside.length).opened fence = none := by
    rw [opened, kind_fence rfl]
  have hmiddle : entriesOf opened (((s.forward 1).enter name).visits inside) = [] :=
    entriesOf_eq_nil fun v hv => (no_fence_between hno hv).1
  rw [visits_block hout hopen hno, entriesOf_cons, entriesOf_append, hmiddle, hfirst,
    entriesOf_cons, hlast]
  rfl

theorem closed_block (hout : s.inChunk = false)
    (hopen : Line.fenceOpen? opening = some name) (hno : fence ∉ inside) :
    entriesOf closed (s.visits (opening :: inside ++ [fence]))
      = [(s.lineNumber + inside.length + 2, ⟨name, s.current⟩)] := by
  have hfirst : s.closed opening = none := by rw [closed, kind_open hout hopen]
  have hlast : (((s.forward 1).enter name).forward inside.length).closed fence
      = some ⟨name, s.current⟩ := by
    rw [closed, kind_fence rfl]
    rfl
  have hmiddle : entriesOf closed (((s.forward 1).enter name).visits inside) = [] :=
    entriesOf_eq_nil fun v hv => (no_fence_between hno hv).2.1
  have hnumber : (((s.forward 1).enter name).forward inside.length).lineNumber + 1
      = s.lineNumber + inside.length + 2 := by
    show s.lineNumber + 1 + inside.length + 1 = s.lineNumber + inside.length + 2
    omega
  rw [visits_block hout hopen hno, entriesOf_cons, entriesOf_append, hmiddle, hfirst,
    entriesOf_cons, hlast, hnumber]
  rfl

theorem defined_block (hout : s.inChunk = false)
    (hopen : Line.fenceOpen? opening = some name) (hno : fence ∉ inside) (x : ChunkName) :
    ((s.visits (opening :: inside ++ [fence])).flatMap fun v => v.1.defined v.2 x)
      = if name = x then [⟨⟨s.file, s.lineNumber + 1⟩, s.current⟩] else [] := by
  have hfirst : s.opened opening = some name := by rw [opened, kind_open hout hopen]
  have hlast : (((s.forward 1).enter name).forward inside.length).defined fence x = [] := by
    rw [defined, opened, kind_fence rfl, if_neg (by simp)]
  have hmiddle : (((s.forward 1).enter name).visits inside).flatMap
      (fun v => v.1.defined v.2 x) = [] :=
    List.flatMap_eq_nil_iff.mpr fun v hv => (no_fence_between hno hv).2.2 x
  rw [visits_block hout hopen hno, List.flatMap_cons, List.flatMap_append, hmiddle,
    List.flatMap_singleton, hlast, List.append_nil, List.append_nil, defined, hfirst]
  simp only [Option.some.injEq]

/-- The lines of a block that belong to its chunk are those between its fences. -/
theorem content_block (hout : s.inChunk = false)
    (hopen : Line.fenceOpen? opening = some name) (hno : fence ∉ inside)
    {v : Scanner × Text} (hv : v ∈ s.visits (opening :: inside ++ [fence])) (x : ChunkName) :
    (v.1.inChunk = true ∧ v.2 ≠ fence ∧ v.1.chunkName = x) ↔
      name = x ∧ s.lineNumber + 1 ≤ v.1.lineNumber ∧
        v.1.lineNumber + 1 < s.lineNumber + inside.length + 2 := by
  rw [visits_block hout hopen hno] at hv
  rcases List.mem_cons.mp hv with rfl | hv
  · constructor
    · rintro ⟨hin, -⟩
      rw [hout] at hin
      cases hin
    · rintro ⟨-, hfirst, -⟩
      exact absurd hfirst (Nat.not_succ_le_self _)
  · rcases List.mem_append.mp hv with hv | hv
    · obtain ⟨hline, n, hn, hstate⟩ := mem_visits_inside rfl hno hv
      have hnumber : v.1.lineNumber = s.lineNumber + 1 + n := by rw [hstate]; rfl
      have hname : v.1.chunkName = name := by rw [hstate]; rfl
      constructor
      · rintro ⟨-, -, rfl⟩
        exact ⟨hname.symm, by omega, by omega⟩
      · rintro ⟨rfl, -, -⟩
        exact ⟨by rw [hstate]; rfl, hline, hname⟩
    · rw [List.mem_singleton.mp hv]
      constructor
      · rintro ⟨-, hline, -⟩
        exact absurd rfl hline
      · rintro ⟨-, -, hlast⟩
        have hlast : s.lineNumber + 1 + inside.length + 1 < s.lineNumber + inside.length + 2 :=
          hlast
        omega

end Block

end Scanner

/-- Lines behind a document do not disturb its blocks. -/
theorem Block.append {lines : List Text} {name : ChunkName} {first last : Nat}
    (h : Block lines name first last) (more : List Text) :
    Block (lines ++ more) name first last := by
  obtain ⟨before, opening, inside, after, rfl, hrest⟩ := h
  refine ⟨before, opening, inside, after ++ more, ?_, hrest⟩
  rw [List.append_assoc, List.cons_append]

/-! ## The blocks of a document -/

/-- A pass from `start` over these lines records these blocks. -/
structure Fenced (start : Scanner) (lines : List Text) (blocks : List Fences) : Prop where
  outside : (lines.foldl Scanner.next start).inChunk = false
  starts : entriesOf Scanner.opened (start.visits lines) = blocks.map Fences.opening
  ends : entriesOf Scanner.closed (start.visits lines) = blocks.map Fences.closing
  definitions : ∀ x, ((start.visits lines).flatMap fun v => v.1.defined v.2 x)
    = (blocks.filter (·.name == x)).map (Fences.definition start.file)
  increasing : (blocks.flatMap fun b => [b.first, b.last]).Pairwise (· < ·)
  bounded : ∀ n ∈ blocks.flatMap fun b => [b.first, b.last], n ≤ lines.length
  content : ∀ v ∈ start.visits lines, ∀ x,
    (v.1.inChunk = true ∧ v.2 ≠ fence ∧ v.1.chunkName = x) ↔
      ∃ b ∈ blocks, b.name = x ∧ b.first ≤ v.1.lineNumber ∧ v.1.lineNumber + 1 < b.last
  sound : ∀ b ∈ blocks, Block lines b.name b.first b.last

namespace Fenced

variable {start : Scanner} {before : List Text} {blocks : List Fences}

theorem nil (hout : start.inChunk = false) : Fenced start [] [] :=
  ⟨hout, rfl, rfl, fun _ => rfl, List.Pairwise.nil, List.forall_mem_nil _,
    List.forall_mem_nil _, List.forall_mem_nil _⟩

theorem le_of_mem (h : Fenced start before blocks) {b : Fences} (hb : b ∈ blocks) :
    b.first ≤ before.length ∧ b.last ≤ before.length :=
  ⟨h.bounded _ (List.mem_flatMap.mpr ⟨b, hb, List.mem_cons_self⟩),
    h.bounded _ (List.mem_flatMap.mpr ⟨b, hb, List.mem_cons_of_mem _ List.mem_cons_self⟩)⟩

/-- Earlier lines stand before later blocks, and later lines behind earlier blocks. -/
theorem content_append (hstart : start.At []) (h : Fenced start before blocks)
    (more : List Text) {later : List Fences} (hfirst : ∀ b ∈ later, before.length < b.first)
    (hlater : ∀ v ∈ (before.foldl Scanner.next start).visits more, ∀ x,
      (v.1.inChunk = true ∧ v.2 ≠ fence ∧ v.1.chunkName = x) ↔
        ∃ b ∈ later, b.name = x ∧ b.first ≤ v.1.lineNumber ∧ v.1.lineNumber + 1 < b.last) :
    ∀ v ∈ start.visits (before ++ more), ∀ x,
      (v.1.inChunk = true ∧ v.2 ≠ fence ∧ v.1.chunkName = x) ↔
        ∃ b ∈ blocks ++ later,
          b.name = x ∧ b.first ≤ v.1.lineNumber ∧ v.1.lineNumber + 1 < b.last := by
  intro v hv x
  rw [Scanner.visits_append] at hv
  rcases List.mem_append.mp hv with hv | hv
  · have hupper := (Scanner.lineNumber_of_mem_visits hv).2
    rw [hstart.lineNumber, List.length_nil, Nat.zero_add] at hupper
    rw [h.content v hv x]
    constructor
    · rintro ⟨b, hb, hrest⟩
      exact ⟨b, List.mem_append_left _ hb, hrest⟩
    · rintro ⟨b, hb, hname, hle, hlast⟩
      rcases List.mem_append.mp hb with hb | hb
      · exact ⟨b, hb, hname, hle, hlast⟩
      · have hlt := hfirst b hb
        omega
  · have hlower := (Scanner.lineNumber_of_mem_visits hv).1
    rw [(hstart.foldl_next before).lineNumber, List.nil_append] at hlower
    rw [hlater v hv x]
    constructor
    · rintro ⟨b, hb, hrest⟩
      exact ⟨b, List.mem_append_right _ hb, hrest⟩
    · rintro ⟨b, hb, hname, hle, hlast⟩
      rcases List.mem_append.mp hb with hb | hb
      · have hbound := (h.le_of_mem hb).2
        omega
      · exact ⟨b, hb, hname, hle, hlast⟩

/-- A line of prose adds no block. -/
theorem prose (hstart : start.At []) (h : Fenced start before blocks) {line : Text}
    (hline : Line.fenceOpen? line = none) : Fenced start (before ++ [line]) blocks := by
  generalize hs : before.foldl Scanner.next start = s
  have hout : s.inChunk = false := hs ▸ h.outside
  have hvisits : start.visits (before ++ [line]) = start.visits before ++ [(s, line)] := by
    rw [Scanner.visits_append, hs]
    rfl
  obtain ⟨⟨hopened, hclosed, hdefined⟩, hnext⟩ := Scanner.no_fence_outside hout hline
  constructor
  · rw [List.foldl_append, hs]
    exact hnext
  · rw [hvisits, entriesOf_append, h.starts, entriesOf_cons, hopened]
    exact List.append_nil _
  · rw [hvisits, entriesOf_append, h.ends, entriesOf_cons, hclosed]
    exact List.append_nil _
  · intro x
    rw [hvisits, List.flatMap_append, h.definitions, List.flatMap_singleton, hdefined,
      List.append_nil]
  · exact h.increasing
  · intro n hn
    rw [List.length_append]
    exact Nat.le_add_right_of_le (h.bounded n hn)
  · have hcontent := h.content_append hstart [line] (List.forall_mem_nil _) ?_
    · rwa [List.append_nil] at hcontent
    · intro v hv x
      rw [hs] at hv
      rw [List.mem_singleton.mp hv, hout]
      simp
  · intro b hb
    exact (h.sound b hb).append [line]

/-- A block adds itself. -/
theorem block (hstart : start.At []) (h : Fenced start before blocks) {opening : Text}
    {inside : List Text} {name : ChunkName} (hbefore : Outside before)
    (hopen : Line.fenceOpen? opening = some name) (hno : fence ∉ inside) :
    Fenced start (before ++ opening :: inside ++ [fence])
      (blocks ++ [⟨before.length + 1, before.length + inside.length + 2, name,
        (before.foldl Scanner.next start).current⟩]) := by
  generalize hs : before.foldl Scanner.next start = s
  have hout : s.inChunk = false := hs ▸ h.outside
  have hnumber : s.lineNumber = before.length := hs ▸ (hstart.foldl_next before).lineNumber
  have hfile : s.file = start.file := hs ▸ Scanner.file_foldl_next start before
  have hvisits : start.visits (before ++ opening :: inside ++ [fence])
      = start.visits before ++ s.visits (opening :: inside ++ [fence]) := by
    rw [List.append_assoc, Scanner.visits_append, hs]
  -- both fences stand behind the lines before the block
  have hfences : ∀ n ∈ [before.length + 1, before.length + inside.length + 2],
      before.length < n ∧ n ≤ before.length + (inside.length + 1) + (0 + 1) := by
    intro n hn
    have hn : n = before.length + 1 ∨ n = before.length + inside.length + 2 := by
      simpa using hn
    omega
  constructor
  · rw [List.append_assoc, List.foldl_append, hs]
    exact Scanner.foldl_next_block hout hopen hno
  · rw [hvisits, entriesOf_append, h.starts, Scanner.opened_block hout hopen hno, hnumber,
      List.map_append]
    rfl
  · rw [hvisits, entriesOf_append, h.ends, Scanner.closed_block hout hopen hno, hnumber,
      List.map_append]
    rfl
  · intro x
    rw [hvisits, List.flatMap_append, h.definitions, Scanner.defined_block hout hopen hno,
      hnumber, hfile, List.filter_append, List.map_append]
    by_cases hx : name = x
    · simp [hx, Fences.definition]
    · simp [hx]
  · rw [List.flatMap_append, List.flatMap_singleton]
    refine List.pairwise_append.mpr ⟨h.increasing, ?_, ?_⟩
    · exact List.pairwise_pair.mpr (by dsimp only; omega)
    · intro n hn m hm
      have hle := h.bounded n hn
      have hlt := (hfences m hm).1
      omega
  · intro n hn
    rw [List.flatMap_append, List.flatMap_singleton] at hn
    simp only [List.length_append, List.length_cons, List.length_nil]
    rcases List.mem_append.mp hn with hn | hn
    · have hle := h.bounded n hn
      omega
    · exact (hfences n hn).2
  · rw [List.append_assoc]
    refine h.content_append hstart _ ?_ fun v hv x => ?_
    · intro b hb
      rw [List.mem_singleton.mp hb]
      exact Nat.lt_succ_self _
    · rw [hs] at hv
      rw [Scanner.content_block hout hopen hno hv x, hnumber]
      simp
  · intro b hb
    rcases List.mem_append.mp hb with hb | hb
    · rw [List.append_assoc]
      exact (h.sound b hb).append _
    · rw [List.mem_singleton.mp hb]
      exact ⟨before, opening, inside, [], rfl, hbefore, hopen, hno, rfl, rfl⟩

/-- Lines that end outside of every block record their blocks. -/
theorem exists_of_outside {lines : List Text} (hstart : start.At []) (h : Outside lines) :
    ∃ blocks, Fenced start lines blocks := by
  induction h with
  | nil => exact ⟨[], Fenced.nil hstart.inChunk_eq⟩
  | prose _ hline ih =>
      obtain ⟨blocks, hblocks⟩ := ih
      exact ⟨blocks, hblocks.prose hstart hline⟩
  | block hbefore hopen hno ih =>
      obtain ⟨blocks, hblocks⟩ := ih
      exact ⟨_, hblocks.block hstart hbefore hopen hno⟩

/-- Every block of the lines is recorded. -/
theorem complete {lines : List Text} (hstart : start.At []) (h : Fenced start lines blocks)
    {name : ChunkName} {first last : Nat} (hblock : Block lines name first last) :
    ∃ b ∈ blocks, b.name = name ∧ b.first = first ∧ b.last = last := by
  obtain ⟨before, opening, inside, after, rfl, hbefore, hopen, hno, rfl, rfl⟩ := hblock
  obtain ⟨earlier, hearlier⟩ := exists_of_outside hstart hbefore
  have hhere := hearlier.block hstart hbefore hopen hno
  -- what is recorded up to the block's end is the start of both columns
  have hlines : before ++ opening :: inside ++ fence :: after
      = before ++ opening :: inside ++ [fence] ++ after := by
    rw [List.append_assoc _ [fence], List.singleton_append]
  have hopening := h.starts
  have hclosing := h.ends
  rw [hlines, Scanner.visits_append, entriesOf_append, hhere.starts, List.map_append,
    List.append_assoc] at hopening
  rw [hlines, Scanner.visits_append, entriesOf_append, hhere.ends, List.map_append,
    List.append_assoc] at hclosing
  have hfirst := congrArg (·[earlier.length]?) hopening
  have hlast := congrArg (·[earlier.length]?) hclosing
  simp only [List.map_cons, List.map_nil, List.singleton_append, List.getElem?_map] at hfirst hlast
  rw [List.getElem?_append_right (by simp), List.length_map, Nat.sub_self] at hfirst hlast
  cases hb : blocks[earlier.length]? with
  | none =>
      rw [hb] at hfirst
      cases hfirst
  | some b =>
      rw [hb] at hfirst hlast
      obtain ⟨hbfirst, hbname⟩ := Prod.mk.inj (Option.some.inj hfirst)
      obtain ⟨hblast, -⟩ := Prod.mk.inj (Option.some.inj hlast)
      exact ⟨b, List.mem_of_getElem? hb, hbname.symm, hbfirst.symm, hblast.symm⟩

end Fenced

/-- **The fences of a document.**  A pass over a whole document records its blocks. -/
theorem Pass.exists_fenced {read : Path → Except Fault Text} {p : Pass} (h : p.Of read) :
    ∃ blocks, Fenced p.start p.lines blocks :=
  Fenced.exists_of_outside h.atStart ((h.atStart.foldl_next p.lines).outside h.outside)

end Literate
