import Literate.Proofs.Document.Accounting

/-! # The sections that definitions stand in

    A definition keeps the section that the scanner stands in when a fence opens
    the chunk.  That section has a start on record in the same document: the
    last heading, or the first line of a document that goes on with a section
    of an earlier one (`Scanner.current_of_mem_visits`).

    A line of a chunk stands behind a fence that opened the chunk, so there is
    always a definition before it to name its section (`Scan.Passed.definitionBefore?_eq`). -/

namespace Literate

/-! ## The section of the scanner -/

namespace Scanner

variable {s : Scanner}

/-- A heading opens a section of the same document. -/
theorem next_current_file (s : Scanner) (line : Text) :
    (s.next line).current.file = s.current.file := by
  by_cases hh : ∃ level text, s.kind line = .heading level text
  · obtain ⟨level, text, hk⟩ := hh
    simp only [next, hk, Section.next?]
    cases Line.heading? line <;> rfl
  · rw [next_current fun level text hk => hh ⟨level, text, hk⟩]

theorem current_file_foldl_next (lines : List Text) (s : Scanner) :
    (lines.foldl next s).current.file = s.current.file := by
  induction lines generalizing s with
  | nil => rfl
  | cons line lines ih => rw [List.foldl_cons, ih, next_current_file]

/-- Behind a line the scanner stands in the section that starts there, or else where it
    stood before. -/
theorem sectionAt_or_current (s : Scanner) (line : Text) :
    s.sectionAt line = some (s.next line).current ∨
      s.lineNumber ≠ 0 ∧ (s.next line).current = s.current := by
  by_cases hh : ∃ level text, s.kind line = .heading level text
  · obtain ⟨level, text, hk⟩ := hh
    exact Or.inl (sectionAt_of_heading hk)
  · have hno : ∀ level text, s.kind line ≠ .heading level text :=
      fun level text hk => hh ⟨level, text, hk⟩
    have hcurrent := next_current hno
    by_cases hzero : s.lineNumber = 0
    · left
      rw [sectionAt_of_not_heading hno, if_pos hzero, hcurrent]
    · exact Or.inr ⟨hzero, hcurrent⟩

/-- Whatever holds of all sections that start holds of the section that the scanner stands
    in, from the first line on. -/
theorem current_of_mem_visits {P : Section → Prop} {lines : List Text}
    (hstart : s.lineNumber = 0 ∨ P s.current)
    (hevent : ∀ v ∈ s.visits lines, ∀ sec, v.1.sectionAt v.2 = some sec → P sec) :
    ∀ v ∈ s.visits lines, P (v.1.next v.2).current := by
  induction lines generalizing s with
  | nil =>
      intro v hv
      cases hv
  | cons line lines ih =>
      have hfirst : P (s.next line).current := by
        rcases s.sectionAt_or_current line with hsome | ⟨hzero, hsame⟩
        · exact hevent (s, line) List.mem_cons_self _ hsome
        · rw [hsame]
          exact hstart.resolve_left hzero
      intro v hv
      rcases List.mem_cons.mp hv with rfl | hv
      · exact hfirst
      · exact ih (Or.inr hfirst) (fun w hw => hevent w (List.mem_cons_of_mem _ hw)) v hv

/-- A definition keeps the section that the scanner stands in behind the fence. -/
theorem within_of_defined {v : Scanner × Text} {x : ChunkName} {d : Definition}
    (h : d ∈ v.1.defined v.2 x) : d.within = (v.1.next v.2).current := by
  rw [defined] at h
  split at h
  · next hopen =>
      have hcurrent : (v.1.next v.2).current = v.1.current := by
        refine next_current fun level text hk => ?_
        rw [opened, hk] at hopen
        cases hopen
      rw [List.mem_singleton.mp h, hcurrent]
  · cases h

end Scanner

/-- The entries that lines make stand in the order of the lines. -/
theorem pairwise_entriesOf {ν : Type} (event : Scanner → Text → Option ν) (s : Scanner)
    (lines : List Text) :
    (entriesOf event (s.visits lines)).Pairwise fun e e' => e.1 < e'.1 := by
  refine List.pairwise_filterMap.mpr ((s.pairwise_visits lines).imp ?_)
  intro v w hlt e he e' he'
  obtain ⟨_, -, rfl⟩ := Option.map_eq_some_iff.mp he
  obtain ⟨_, -, rfl⟩ := Option.map_eq_some_iff.mp he'
  exact Nat.succ_lt_succ hlt

/-! ## Sections on record -/

namespace Pass

variable {read : Path → Except Fault Text} {p : Pass}

/-- The section that the scanner stands in belongs to the document, and starts at one of
    its lines. -/
theorem section_start (h : p.Of read) {v : Scanner × Text} (hv : v ∈ p.visits) :
    (v.1.next v.2).current.file = p.file ∧
      ∃ n < p.lines.length,
        LineMap.get? (n + 1) p.shown.sections = some (v.1.next v.2).current := by
  constructor
  · obtain ⟨before, rest, -, hstate⟩ := Scanner.mem_visits hv
    rw [Scanner.next_current_file, hstate, Scanner.current_file_foldl_next, h.owned]
  · refine Scanner.current_of_mem_visits
      (P := fun sec => ∃ n < p.lines.length, LineMap.get? (n + 1) p.shown.sections = some sec)
      (Or.inl h.atStart.lineNumber) (fun w hw sec hsec => ?_) v hv
    have hbound := (Scanner.lineNumber_of_mem_visits hw).2
    rw [h.atStart.lineNumber, List.length_nil, Nat.zero_add] at hbound
    refine ⟨w.1.lineNumber, hbound, ?_⟩
    refine LineMap.get?_of_mem (pairwise_entriesOf Scanner.sectionAt p.start p.lines) ?_
    refine List.mem_filterMap.mpr ⟨w, hw, ?_⟩
    rw [hsec]
    rfl

end Pass

namespace Scan

variable {read : Path → Except Fault Text} {scan : Scan} {ps : List Pass}

/-- The section of a definition belongs to a document of the run, and starts at one of its
    lines. -/
theorem Passed.within_start (h : scan.Passed read ps) {x : ChunkName} {d : Definition}
    (hd : d ∈ scan.document.chunks.definitionsOf x) :
    ∃ p ∈ ps, d.within.file = p.file ∧ ∃ n < p.lines.length,
      LineMap.get? (n + 1) (scan.document.sectionsIn p.file) = some d.within := by
  rw [h.definitions] at hd
  obtain ⟨v, hv, hd⟩ := List.mem_flatMap.mp hd
  obtain ⟨p, hp, hv⟩ := List.mem_flatMap.mp hv
  obtain ⟨-, -, hsections, -⟩ := Shown.mk.inj (h.shown p hp)
  obtain ⟨hfile, n, hn, hget⟩ := p.section_start (h.of p hp) hv
  rw [Scanner.within_of_defined hd]
  refine ⟨p, hp, hfile, n, hn, ?_⟩
  rw [hsections]
  exact hget

end Scan

end Literate
