import Literate.Proofs.Document.Scanning

/-! # What a line records

    All that a scan records comes from the lines it meets on the way, and each
    kind of record is one function of the scanner and the line: the chunk that
    the line opens or closes, the section that starts there, the definition or
    the line that a chunk gets.

    A line adds its entry to an index behind those of earlier lines, and leaves
    other documents alone (`Document.Recorded`).  Three indexes of a document
    set are filled that way; the sections are the one where a line may find its
    entry made already. -/

namespace Literate

/-! ## What a line says -/

namespace Scanner

/-- The name of the chunk that a line opens. -/
def opened (s : Scanner) (line : Text) : Option ChunkName :=
  match s.kind line with
  | .chunkOpen name => some name
  | _ => none

/-- What a line closes. -/
def closed (s : Scanner) (line : Text) : Option ChunkEnd :=
  match s.kind line with
  | .chunkClose => some ⟨s.chunkName, s.current⟩
  | _ => none

/-- The section that starts at a line: that of a heading, and at the first line of a
    document the section that goes on there. -/
def sectionAt (s : Scanner) (line : Text) : Option Section :=
  match s.kind line with
  | .heading _ _ => some (s.next line).current
  | _ => if s.lineNumber = 0 then some s.current else none

/-- What a line adds to the definitions under a name. -/
def defined (s : Scanner) (line : Text) (name : ChunkName) : List Definition :=
  if s.opened line = some name then [⟨⟨s.file, s.lineNumber + 1⟩, s.current⟩] else []

/-- The section changes at headings only. -/
theorem next_current {s : Scanner} {line : Text}
    (h : ∀ level text, s.kind line ≠ .heading level text) :
    (s.next line).current = s.current := by
  rw [next]
  cases hk : s.kind line with
  | heading level text => exact absurd hk (h level text)
  | _ => rfl

theorem sectionAt_of_heading {s : Scanner} {line : Text} {level : Nat} {text : Text}
    (h : s.kind line = .heading level text) :
    s.sectionAt line = some (s.next line).current := by
  rw [sectionAt, h]

theorem sectionAt_of_not_heading {s : Scanner} {line : Text}
    (h : ∀ level text, s.kind line ≠ .heading level text) :
    s.sectionAt line = if s.lineNumber = 0 then some s.current else none := by
  rw [sectionAt]
  cases hk : s.kind line with
  | heading level text => exact absurd hk (h level text)
  | _ => rfl

@[simp] theorem next_location (s : Scanner) (line : Text) :
    (s.next line).location = ⟨s.file, s.lineNumber + 1⟩ := by
  rw [location, next_file, next_lineNumber]

end Scanner

namespace ChunkTable

/-- The definitions under a name, none if there is no chunk. -/
def definitionsOf (t : ChunkTable) (name : ChunkName) : List Definition :=
  ((t.get? name).getD .empty).definitions

theorem definitionsOf_eq {t : ChunkTable} {name : ChunkName} {chunk : Chunk}
    (h : t.get? name = some chunk) : t.definitionsOf name = chunk.definitions := by
  rw [definitionsOf]
  rw [h]
  rfl

/-- A definition goes behind the definitions of its chunk. -/
theorem definitionsOf_addDefinition (t : ChunkTable) (name x : ChunkName) (d : Definition) :
    (t.addDefinition name d).definitionsOf x
      = t.definitionsOf x ++ (if name = x then [d] else []) := by
  simp only [definitionsOf, addDefinition]
  rw [OrderedMap.get?_alter]
  by_cases hx : name = x
  · subst hx
    rw [if_pos (beq_self_eq_true name), if_pos rfl]
    rfl
  · rw [if_neg (fun h => hx (beq_iff_eq.mp h)), if_neg hx, List.append_nil]

/-- A line leaves the definitions as they are. -/
theorem definitionsOf_addLine (t : ChunkTable) (name x : ChunkName) (l : ChunkLine) :
    (t.addLine name l).definitionsOf x = t.definitionsOf x := by
  simp only [definitionsOf, addLine]
  rw [OrderedMap.get?_alter]
  by_cases hx : name = x
  · subst hx
    rw [if_pos (beq_self_eq_true name)]
    rfl
  · rw [if_neg (fun h => hx (beq_iff_eq.mp h))]

end ChunkTable

/-! ## One line -/

namespace Document

/-- Where chunks open in a document. -/
def startsIn (d : Document) (f : Path) : LineMap ChunkName :=
  (d.chunkStarts.get? f).getD []

/-- Where chunks close in a document. -/
def endsIn (d : Document) (f : Path) : LineMap ChunkEnd :=
  (d.chunkEnds.get? f).getD []

/-- Where sections start in a document. -/
def sectionsIn (d : Document) (f : Path) : LineMap Section :=
  (d.sectionStarts.get? f).getD []

/-- The text kept of a document. -/
def textOf (d : Document) (f : Path) : Text :=
  (d.markdown.get? f).getD []

/-- Links, sections, chunks and the kept text are recorded in fields of their own. -/
theorem record_eq (d : Document) (s : Scanner) (line : Text) :
    d.record s line =
      { chunks := (d.recordChunk s line).chunks
        markdown := (d.appendLine s.file line).markdown
        chunkStarts := (d.recordChunk s line).chunkStarts
        chunkEnds := (d.recordChunk s line).chunkEnds
        sectionStarts := (d.recordSections s line).sectionStarts
        warnings := (d.recordChunk s line).warnings
        inputs := (d.scheduleLinks s line).inputs
        outputs := d.outputs } := by
  have hlinks : d.scheduleLinks s line
      = { d with inputs := (d.scheduleLinks s line).inputs } := by
    rw [scheduleLinks]
    split
    · generalize linkedFrom s.file line = paths
      induction paths generalizing d with
      | nil => rfl
      | cons path paths ih => exact ih (d.schedule path)
    · rfl
  rw [record, hlinks]
  simp only [recordSections, recordChunk]
  cases s.kind line with
  | chunkOpen name => dsimp only; split <;> split <;> rfl
  | _ => dsimp only; split <;> rfl

/-- An index of each document, `view`, is filled by what the lines say, `event`: a line
    adds its entry behind those of earlier lines, and leaves other documents alone. -/
structure Recorded {ν : Type} (view : Document → Path → LineMap ν)
    (event : Scanner → Text → Option ν) : Prop where
  self (d : Document) (s : Scanner) (line : Text) :
    (∀ e ∈ view d s.file, e.1 ≤ s.lineNumber) →
    view (d.record s line) s.file
      = view d s.file ++ ((event s line).map (s.lineNumber + 1, ·)).toList
  other (d : Document) (s : Scanner) (line : Text) (f : Path) :
    (s.file == f) = false → view (d.record s line) f = view d f

/-- An index to which a line adds its entry under its number is filled by the lines. -/
theorem recorded_of_alter {ν : Type} {index : Document → OrderedMap Path (LineMap ν)}
    {event : Scanner → Text → Option ν}
    (h : ∀ d s line, index (d.record s line) =
      match event s line with
      | some v => (index d).alter s.file fun m => (m.getD []).insert (s.lineNumber + 1) v
      | none => index d) :
    Recorded (fun d f => ((index d).get? f).getD []) event := by
  constructor
  · intro d s line hle
    rw [h]
    cases event s line with
    | none => exact (List.append_nil _).symm
    | some v =>
        have hlt : ∀ e ∈ ((index d).get? s.file).getD [], e.1 < s.lineNumber + 1 :=
          fun e he => Nat.lt_succ_of_le (hle e he)
        dsimp only
        rw [OrderedMap.get?_alter, if_pos BEq.rfl, Option.getD_some, LineMap.insert_of_lt hlt]
        rfl
  · intro d s line f hf
    rw [h]
    cases event s line with
    | none => rfl
    | some v =>
        dsimp only
        rw [OrderedMap.get?_alter, if_neg (by rw [hf]; exact Bool.false_ne_true)]

theorem recorded_starts : Recorded startsIn Scanner.opened := by
  refine recorded_of_alter fun d s line => ?_
  rw [record_eq]
  simp only [recordChunk, Scanner.opened]
  cases s.kind line with
  | chunkOpen name =>
      dsimp only [recordStart]
      rw [Scanner.next_location]
      split <;> rfl
  | _ => rfl

theorem recorded_ends : Recorded endsIn Scanner.closed := by
  refine recorded_of_alter fun d s line => ?_
  rw [record_eq]
  simp only [recordChunk, Scanner.closed]
  cases hk : s.kind line with
  | chunkClose =>
      have hsec : (s.next line).current = s.current := Scanner.next_current (by simp [hk])
      dsimp only [recordEnd]
      rw [Scanner.next_location, hsec]
  | chunkOpen name => dsimp only [recordStart]; split <;> rfl
  | _ => rfl

theorem sectionsIn_recordSection (d : Document) (l : Location) (sec : Section) (f : Path) :
    (d.recordSection l sec).sectionsIn f
      = if l.file == f then (d.sectionsIn l.file).insert l.line sec else d.sectionsIn f := by
  simp only [sectionsIn, recordSection]
  rw [OrderedMap.get?_alter]
  split <;> rfl

theorem sectionsIn_recordOpening (d : Document) (file : Path) (sec : Section) (f : Path) :
    (d.recordOpening file sec).sectionsIn f
      = if file == f then
          if ((d.sectionsIn file).get? 1).isSome then d.sectionsIn file
          else (d.sectionsIn file).insert 1 sec
        else d.sectionsIn f := by
  simp only [sectionsIn, recordOpening]
  rw [OrderedMap.get?_alter]
  split <;> rfl

theorem sectionsIn_record (d : Document) (s : Scanner) (line : Text) (f : Path) :
    (d.record s line).sectionsIn f = (d.recordSections s line).sectionsIn f := by
  rw [record_eq]
  rfl

theorem recordSections_of_heading {d : Document} {s : Scanner} {line : Text} {level : Nat}
    {text : Text} (h : s.kind line = .heading level text) :
    d.recordSections s line =
      if s.lineNumber = 0 then
        (d.recordSection ⟨s.file, s.lineNumber + 1⟩ (s.next line).current).recordOpening s.file
          (s.next line).current
      else d.recordSection ⟨s.file, s.lineNumber + 1⟩ (s.next line).current := by
  simp [recordSections, h]

theorem recordSections_of_not_heading {d : Document} {s : Scanner} {line : Text}
    (h : ∀ level text, s.kind line ≠ .heading level text) :
    d.recordSections s line
      = if s.lineNumber = 0 then d.recordOpening s.file s.current else d := by
  cases hk : s.kind line with
  | heading level text => exact absurd hk (h level text)
  | _ => simp [recordSections, hk, Scanner.next_current h]

/-- A heading makes the entry of its line, which the opening of a document then finds
    made. -/
theorem sectionsIn_recordSections_heading {d : Document} {s : Scanner} {line : Text} {level : Nat}
    {text : Text} (hk : s.kind line = .heading level text)
    (hlt : ∀ e ∈ d.sectionsIn s.file, e.1 < s.lineNumber + 1) :
    (d.recordSections s line).sectionsIn s.file
      = d.sectionsIn s.file ++ [(s.lineNumber + 1, (s.next line).current)] := by
  have hsec := d.sectionsIn_recordSection ⟨s.file, s.lineNumber + 1⟩ (s.next line).current
    s.file
  rw [if_pos BEq.rfl, LineMap.insert_of_lt hlt] at hsec
  rw [recordSections_of_heading hk]
  by_cases hzero : s.lineNumber = 0
  · have hthere : ((d.sectionsIn s.file ++
        [(s.lineNumber + 1, (s.next line).current)]).get? 1).isSome := by
      rw [LineMap.get?, List.lookup_isSome_iff]
      exact ⟨(s.lineNumber + 1, (s.next line).current), by simp, by simp [hzero]⟩
    rw [if_pos hzero, sectionsIn_recordOpening, if_pos BEq.rfl, hsec, if_pos hthere]
  · rw [if_neg hzero, hsec]

/-- The opening of a document that has no entry yet makes that of its first line. -/
theorem sectionsIn_recordOpening_self {d : Document} {file : Path} (sec : Section)
    (hlt : ∀ e ∈ d.sectionsIn file, e.1 < 1) :
    (d.recordOpening file sec).sectionsIn file = d.sectionsIn file ++ [(1, sec)] := by
  have hnot : ¬ ((d.sectionsIn file).get? 1).isSome = true := by
    rw [LineMap.get?, List.lookup_isSome_iff]
    rintro ⟨e, he, hone⟩
    have hone : 1 = e.1 := beq_iff_eq.mp hone
    have hlow := hlt e he
    omega
  rw [sectionsIn_recordOpening, if_pos BEq.rfl, if_neg hnot, LineMap.insert_of_lt hlt]

theorem sectionsIn_recordSections_other (d : Document) (s : Scanner) (line : Text) {f : Path}
    (hf : (s.file == f) = false) : (d.recordSections s line).sectionsIn f = d.sectionsIn f := by
  have hne : ¬ (s.file == f) = true := by rw [hf]; exact Bool.false_ne_true
  by_cases hh : ∃ level text, s.kind line = .heading level text
  · obtain ⟨level, text, hk⟩ := hh
    rw [recordSections_of_heading hk]
    split
    · rw [sectionsIn_recordOpening, if_neg hne, sectionsIn_recordSection, if_neg hne]
    · rw [sectionsIn_recordSection, if_neg hne]
  · rw [recordSections_of_not_heading fun level text hk => hh ⟨level, text, hk⟩]
    split
    · rw [sectionsIn_recordOpening, if_neg hne]
    · rfl

theorem recorded_sections : Recorded sectionsIn Scanner.sectionAt := by
  constructor
  · intro d s line hle
    have hlt : ∀ e ∈ d.sectionsIn s.file, e.1 < s.lineNumber + 1 :=
      fun e he => Nat.lt_succ_of_le (hle e he)
    rw [sectionsIn_record]
    by_cases hh : ∃ level text, s.kind line = .heading level text
    · obtain ⟨level, text, hk⟩ := hh
      rw [sectionsIn_recordSections_heading hk hlt, Scanner.sectionAt_of_heading hk]
      rfl
    · have hno : ∀ level text, s.kind line ≠ .heading level text :=
        fun level text hk => hh ⟨level, text, hk⟩
      rw [recordSections_of_not_heading hno, Scanner.sectionAt_of_not_heading hno]
      by_cases hzero : s.lineNumber = 0
      · rw [hzero] at hlt
        rw [if_pos hzero, if_pos hzero, hzero, sectionsIn_recordOpening_self _ hlt]
        rfl
      · rw [if_neg hzero, if_neg hzero]
        exact (List.append_nil _).symm
  · intro d s line f hf
    rw [sectionsIn_record, sectionsIn_recordSections_other d s line hf]

/-- A line goes behind the text kept of its document. -/
theorem textOf_record (d : Document) (s : Scanner) (line : Text) (f : Path) :
    (d.record s line).textOf f
      = if s.file == f then d.textOf s.file ++ (line ++ ['\n']) else d.textOf f := by
  rw [record_eq]
  simp only [textOf, appendLine]
  rw [OrderedMap.get?_alter]
  split <;> rfl

/-- Each line adds to the definitions of a chunk what the scanner finds defined. -/
theorem definitionsOf_record (d : Document) (s : Scanner) (line : Text) (x : ChunkName) :
    (d.record s line).chunks.definitionsOf x
      = d.chunks.definitionsOf x ++ s.defined line x := by
  rw [record_eq]
  cases hk : s.kind line with
  | chunkOpen name =>
      have hsec : (s.next line).current = s.current := Scanner.next_current (by simp [hk])
      have hadd := d.chunks.definitionsOf_addDefinition name x
        ⟨⟨s.file, s.lineNumber + 1⟩, s.current⟩
      simp only [recordChunk, hk, Scanner.defined, Scanner.opened, Option.some.injEq,
        Scanner.next_location, hsec, recordStart]
      split <;> exact hadd
  | code =>
      simp only [recordChunk, hk, Scanner.defined, Scanner.opened]
      rw [ChunkTable.definitionsOf_addLine, if_neg (by simp), List.append_nil]
  | reference ref =>
      simp only [recordChunk, hk, Scanner.defined, Scanner.opened]
      rw [ChunkTable.definitionsOf_addLine, if_neg (by simp), List.append_nil]
  | _ => simp [recordChunk, hk, Scanner.defined, Scanner.opened, recordEnd]

end Document

end Literate
