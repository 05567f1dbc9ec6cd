import Literate.Document.Scan

/-! # Blocks of a document

    Which lines of a document stand in which block, said about the lines alone:
    a block is an opening fence, lines none of which is a closing fence, and a
    closing fence, behind lines that end outside of every block.

    The scanner knows this at every line.  Its state behind some lines says
    whether they end inside a block and under which name (`Scanner.At`), and
    each further line keeps that so (`Scanner.At.next`).  Hence a line that the
    scanner takes for the content of a chunk stands between the fences of a
    block of that name, provided the document does not end inside a block
    (`Scanner.block_of_content`). -/

namespace Literate

/-! ## Blocks -/

/-- Lines that end outside of every block: prose, and blocks with both fences. -/
inductive Outside : List Text → Prop where
  | nil : Outside []
  | prose {before : List Text} {line : Text} :
      Outside before → Line.fenceOpen? line = none → Outside (before ++ [line])
  | block {before inside : List Text} {opening : Text} {name : ChunkName} :
      Outside before → Line.fenceOpen? opening = some name → fence ∉ inside →
      Outside (before ++ opening :: inside ++ [fence])

/-- Lines that end inside a block of the given name. -/
def Inside (lines : List Text) (name : ChunkName) : Prop :=
  ∃ before opening inside, lines = before ++ opening :: inside ∧ Outside before ∧
    Line.fenceOpen? opening = some name ∧ fence ∉ inside

/-- A block of the given name, whose fences are the lines `first` and `last`. -/
def Block (lines : List Text) (name : ChunkName) (first last : Nat) : Prop :=
  ∃ before opening inside after,
    lines = before ++ opening :: inside ++ fence :: after ∧ Outside before ∧
    Line.fenceOpen? opening = some name ∧ fence ∉ inside ∧
    first = before.length + 1 ∧ last = before.length + inside.length + 2

/-- Another line that is no fence leaves lines inside their block. -/
theorem Inside.content {lines : List Text} {name : ChunkName} {line : Text}
    (h : Inside lines name) (hline : line ≠ fence) : Inside (lines ++ [line]) name := by
  obtain ⟨before, opening, inside, rfl, hout, hopen, hin⟩ := h
  refine ⟨before, opening, inside ++ [line], ?_, hout, hopen, ?_⟩
  · rw [List.append_assoc, List.cons_append]
  · intro hmem
    rcases List.mem_append.mp hmem with hmem | hmem
    · exact hin hmem
    · exact hline (List.mem_singleton.mp hmem).symm

/-- A closing fence ends the block. -/
theorem Inside.close {lines : List Text} {name : ChunkName} (h : Inside lines name) :
    Outside (lines ++ [fence]) := by
  obtain ⟨before, opening, inside, rfl, hout, hopen, hin⟩ := h
  exact Outside.block hout hopen hin

/-- An opening fence begins a block. -/
theorem Outside.open {lines : List Text} {name : ChunkName} {line : Text}
    (h : Outside lines) (hline : Line.fenceOpen? line = some name) :
    Inside (lines ++ [line]) name :=
  ⟨lines, line, [], rfl, h, hline, List.not_mem_nil⟩

/-- Lines inside a block, a line of it, and lines behind among which there is a
    closing fence: the line stands between the fences of the block. -/
theorem Inside.exists_block {read rest : List Text} {name : ChunkName} {line : Text}
    (h : Inside read name) (hline : line ≠ fence) (hrest : fence ∈ rest) :
    ∃ first last, Block (read ++ line :: rest) name first last ∧
      first < read.length + 1 ∧ read.length + 1 < last := by
  obtain ⟨before, opening, above, rfl, hout, hopen, hin⟩ := h
  -- the first fence behind the line is the one that closes the block
  obtain ⟨below, after, rfl, hbelow⟩ := List.eq_append_cons_of_mem hrest
  refine ⟨before.length + 1, before.length + (above ++ line :: below).length + 2,
    ⟨before, opening, above ++ line :: below, after, ?_, hout, hopen, ?_, rfl, rfl⟩, ?_, ?_⟩
  · simp only [List.append_assoc, List.cons_append]
  · intro hmem
    rcases List.mem_append.mp hmem with hmem | hmem
    · exact hin hmem
    · rcases List.mem_cons.mp hmem with heq | hmem
      · exact hline heq.symm
      · exact hbelow hmem
  · simp only [List.length_append, List.length_cons]
    omega
  · simp only [List.length_append, List.length_cons]
    omega

namespace Scanner

variable {s : Scanner} {line : Text}

/-! ## What one line can be -/

/-- The role of a line: inside a chunk it closes the chunk or belongs to it;
    outside it opens one or is neither. -/
theorem kind_cases (s : Scanner) (line : Text) :
    (s.inChunk = true ∧ line = fence ∧ s.kind line = .chunkClose) ∨
    (s.inChunk = true ∧ line ≠ fence ∧
      (s.kind line = .code ∨ ∃ ref, s.kind line = .reference ref)) ∨
    (∃ name, s.inChunk = false ∧ Line.fenceOpen? line = some name ∧
      s.kind line = .chunkOpen name) ∨
    (s.inChunk = false ∧ Line.fenceOpen? line = none ∧
      (s.kind line = .prose ∨ ∃ level text, s.kind line = .heading level text)) := by
  rw [kind, Line.kind]
  cases hin : s.inChunk with
  | true =>
      by_cases hf : line = fence
      · exact Or.inl ⟨rfl, hf, by rw [if_pos rfl, if_pos hf]⟩
      · refine Or.inr (Or.inl ⟨rfl, hf, ?_⟩)
        rw [if_pos rfl, if_neg hf]
        cases Line.reference? line with
        | none => exact Or.inl rfl
        | some ref => exact Or.inr ⟨ref, rfl⟩
  | false =>
      rw [if_neg Bool.false_ne_true]
      cases hopen : Line.fenceOpen? line with
      | some name => exact Or.inr (Or.inr (Or.inl ⟨name, rfl, rfl, rfl⟩))
      | none =>
          refine Or.inr (Or.inr (Or.inr ⟨rfl, rfl, ?_⟩))
          cases Line.heading? line with
          | none => exact Or.inl rfl
          | some heading => exact Or.inr ⟨heading.1, heading.2, rfl⟩

/-- Outside of chunks, what is neither a fence nor prose is a heading. -/
theorem kind_eq_heading_iff {line title : Text} {level : Nat} :
    s.kind line = .heading level title ↔
      s.inChunk = false ∧ Line.fenceOpen? line = none ∧ Line.heading? line = some (level, title) := by
  rw [kind, Line.kind]
  cases s.inChunk with
  | true =>
      rw [if_pos rfl]
      constructor
      · intro h
        split at h
        · cases h
        · split at h <;> cases h
      · rintro ⟨hout, -⟩
        cases hout
  | false =>
      rw [if_neg Bool.false_ne_true]
      cases Line.fenceOpen? line with
      | some name => simp
      | none => cases Line.heading? line <;> simp [Prod.ext_iff]

@[simp] theorem next_lineNumber (s : Scanner) (line : Text) :
    (s.next line).lineNumber = s.lineNumber + 1 := by
  rw [next]
  split <;> rfl

@[simp] theorem next_file (s : Scanner) (line : Text) : (s.next line).file = s.file := by
  rw [next]
  split <;> rfl

theorem next_of_close (h : s.kind line = .chunkClose) : (s.next line).inChunk = false := by
  rw [next]
  rw [h]

theorem next_of_open {name : ChunkName} (h : s.kind line = .chunkOpen name) :
    (s.next line).inChunk = true ∧ (s.next line).chunkName = name := by
  rw [next]
  rw [h]
  exact ⟨rfl, rfl⟩

theorem next_of_content (h : s.kind line = .code ∨ ∃ ref, s.kind line = .reference ref) :
    (s.next line).inChunk = s.inChunk ∧ (s.next line).chunkName = s.chunkName := by
  rw [next]
  rcases h with h | ⟨ref, h⟩
  · rw [h]
    exact ⟨rfl, rfl⟩
  · rw [h]
    exact ⟨rfl, rfl⟩

theorem next_of_prose
    (h : s.kind line = .prose ∨ ∃ level text, s.kind line = .heading level text) :
    (s.next line).inChunk = s.inChunk := by
  rw [next]
  rcases h with h | ⟨level, text, h⟩
  · rw [h]
  · rw [h]

/-! ## The state behind lines -/

/-- The scanner stands behind these lines of its document. -/
structure At (lines : List Text) (s : Scanner) : Prop where
  lineNumber : s.lineNumber = lines.length
  inside : s.inChunk = true → Inside lines s.chunkName
  outside : s.inChunk = false → Outside lines

theorem at_startFile (s : Scanner) (file : Path) (followLinks : Bool) :
    At [] (s.startFile file followLinks) :=
  ⟨rfl, nofun, fun _ => Outside.nil⟩

/-- Each further line keeps the state right. -/
theorem At.next {lines : List Text} (h : At lines s) (line : Text) :
    At (lines ++ [line]) (s.next line) := by
  have hnumber : (s.next line).lineNumber = (lines ++ [line]).length := by
    rw [next_lineNumber, h.lineNumber, List.length_append, List.length_singleton]
  -- a closing fence, a line of the open chunk, an opening fence, or a line of prose
  rcases s.kind_cases line with ⟨hin, rfl, hk⟩ | ⟨hin, hline, hk⟩ | ⟨name, hin, hopen, hk⟩
    | ⟨hin, hopen, hk⟩
  · refine ⟨hnumber, fun hc => ?_, fun _ => (h.inside hin).close⟩
    rw [next_of_close hk] at hc
    exact nomatch hc
  · obtain ⟨hsame, hname⟩ := next_of_content hk
    refine ⟨hnumber, fun _ => ?_, fun hc => ?_⟩
    · rw [hname]
      exact (h.inside hin).content hline
    · rw [hsame, hin] at hc
      exact nomatch hc
  · obtain ⟨hopened, hname⟩ := next_of_open hk
    refine ⟨hnumber, fun _ => ?_, fun hc => ?_⟩
    · rw [hname]
      exact (h.outside hin).open hopen
    · rw [hopened] at hc
      exact nomatch hc
  · refine ⟨hnumber, fun hc => ?_, fun _ => (h.outside hin).prose hopen⟩
    rw [next_of_prose hk, hin] at hc
    exact nomatch hc

/-- So does any number of lines. -/
theorem At.foldl_next {lines : List Text} (h : At lines s) (more : List Text) :
    At (lines ++ more) (more.foldl Scanner.next s) := by
  induction more generalizing lines s with
  | nil => rw [List.append_nil]; exact h
  | cons line more ih =>
      have := ih (h.next line)
      rw [List.append_assoc] at this
      exact this

/-- Without a closing fence the scanner stays inside a chunk. -/
theorem inChunk_foldl_next {more : List Text} (h : s.inChunk = true) (hmore : fence ∉ more) :
    (more.foldl Scanner.next s).inChunk = true := by
  induction more generalizing s with
  | nil => exact h
  | cons line more ih =>
      have hline : line ≠ fence := fun heq => hmore (heq ▸ List.mem_cons_self)
      refine ih ?_ (fun hmem => hmore (List.mem_cons_of_mem _ hmem))
      -- inside a chunk only a closing fence ends it, and outside the scanner is not
      rcases s.kind_cases line with ⟨-, heq, -⟩ | ⟨-, -, hk⟩ | ⟨name, hin, -⟩ | ⟨hin, -⟩
      · exact absurd heq hline
      · rw [(next_of_content hk).1, h]
      · rw [h] at hin
        exact nomatch hin
      · rw [h] at hin
        exact nomatch hin

/-- A line that the scanner takes for content stands between the fences of a block
    of its chunk, if the document does not end inside a block. -/
theorem block_of_content {before rest : List Text} {start : Scanner} (h : At [] start)
    (hs : s = before.foldl Scanner.next start) (hin : s.inChunk = true)
    (hline : line ≠ fence)
    (hend : ((before ++ line :: rest).foldl Scanner.next start).inChunk = false) :
    ∃ first last, Block (before ++ line :: rest) s.chunkName first last ∧
      first < s.lineNumber + 1 ∧ s.lineNumber + 1 < last := by
  have hat : At before s := hs ▸ h.foldl_next before
  have hrest : fence ∈ rest := by
    -- without another fence the document would end inside this block
    refine Decidable.byContradiction fun hno => ?_
    rw [List.foldl_append, ← hs] at hend
    have hstay : ((line :: rest).foldl Scanner.next s).inChunk = true := by
      refine inChunk_foldl_next hin ?_
      intro hmem
      rcases List.mem_cons.mp hmem with heq | hmem
      · exact hline heq.symm
      · exact hno hmem
    rw [hstay] at hend
    exact nomatch hend
  rw [hat.lineNumber]
  exact (hat.inside hin).exists_block hline hrest

end Scanner

end Literate
