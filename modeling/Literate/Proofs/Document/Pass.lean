import Literate.Proofs.Document.Record

/-! # The passes of a scan

    A scan makes one pass over each of its documents.

    * Behind a pass the index of its document lists what the lines say, in
      order (`Document.Recorded.foldl_step`), and nothing new is shown of any
      other document (`Document.shown_foldl_step_other`).
    * One more document leaves what earlier passes left (`Scan.Passed.file`),
      since no document is scheduled twice.
    * So a run that did not fail is the passes over its inputs, in their order
      (`Scan.passed_run`).  Every statement about what a run found starts from
      there. -/

namespace Literate

/-- The entries that lines make, under their numbers. -/
def entriesOf {ν : Type} (event : Scanner → Text → Option ν)
    (visits : List (Scanner × Text)) : LineMap ν :=
  visits.filterMap fun v => (event v.1 v.2).map (v.1.lineNumber + 1, ·)

namespace Document

/-! ## One pass -/

/-- What grows at its end with each line of a document grows with all that the lines of a
    pass give. -/
theorem foldl_step_append {α : Type} (obs : Document → List α)
    (out : Scanner → Text → List α) {file : Path}
    (h : ∀ d s line, Scanner.file s = file → obs (d.record s line) = obs d ++ out s line)
    (lines : List Text) {s : Scanner} (hs : s.file = file) (d : Document) :
    obs (lines.foldl Scanner.step (s, d)).2
      = obs d ++ (s.visits lines).flatMap fun v => out v.1 v.2 := by
  induction lines generalizing s d with
  | nil => exact (List.append_nil _).symm
  | cons line lines ih =>
      have hstep : Scanner.step (s, d) line = (s.next line, d.record s line) := rfl
      have hnext : (s.next line).file = file := by rw [Scanner.next_file]; exact hs
      rw [List.foldl_cons, hstep, ih hnext, h d s line hs, List.append_assoc]
      rfl

/-- Behind a pass the index of its document goes on with the entries of the lines. -/
theorem Recorded.foldl_step {ν : Type} {view : Document → Path → LineMap ν}
    {event : Scanner → Text → Option ν} (h : Recorded view event) (lines : List Text)
    {s : Scanner} {d : Document} (hle : ∀ e ∈ view d s.file, e.1 ≤ s.lineNumber) :
    view (lines.foldl Scanner.step (s, d)).2 s.file
      = view d s.file ++ entriesOf event (s.visits lines) := by
  induction lines generalizing s d with
  | nil => exact (List.append_nil _).symm
  | cons line lines ih =>
      have hstep : Scanner.step (s, d) line = (s.next line, d.record s line) := rfl
      have hself := h.self d s line hle
      have hle' : ∀ e ∈ view (d.record s line) (s.next line).file,
          e.1 ≤ (s.next line).lineNumber := by
        rw [Scanner.next_file, Scanner.next_lineNumber, hself]
        intro e he
        rcases List.mem_append.mp he with he | he
        · exact Nat.le_succ_of_le (hle e he)
        · obtain ⟨v, -, rfl⟩ := Option.map_eq_some_iff.mp (Option.mem_toList.mp he)
          exact Nat.le_refl _
      have ih := ih hle'
      rw [Scanner.next_file, hself, List.append_assoc] at ih
      rw [List.foldl_cons, hstep, ih, entriesOf, entriesOf]
      rw [Scanner.visits, List.filterMap_cons]
      cases event s line <;> rfl

end Document

/-- The scanner meets the lines in their order. -/
theorem Scanner.map_snd_visits (s : Scanner) (lines : List Text) :
    (s.visits lines).map Prod.snd = lines := by
  induction lines generalizing s with
  | nil => rfl
  | cons line lines ih =>
      rw [visits, List.map_cons, ih]

/-- One pass of the scanner over a document: where it starts, and the lines. -/
structure Pass where
  start : Scanner
  lines : List Text

namespace Pass

/-- The document. -/
def file (p : Pass) : Path :=
  p.start.file

/-- The lines with the states in which the scanner meets them. -/
def visits (p : Pass) : List (Scanner × Text) :=
  p.start.visits p.lines

/-- The pass begins before the first line of its document, in a section that the document
    owns, and goes through all its lines, which do not end inside a block. -/
structure Of (read : Path → Except Fault Text) (p : Pass) : Prop where
  atStart : p.start.At []
  owned : p.start.current.file = p.file
  read_eq : ∃ content, read p.file = .ok content ∧ content.lines = p.lines
  outside : (p.lines.foldl Scanner.next p.start).inChunk = false

end Pass

/-- All that a document set shows of one document. -/
structure Shown where
  starts : LineMap ChunkName
  ends : LineMap ChunkEnd
  sections : LineMap Section
  text : Text

/-- What is shown of a document before any line of it is met. -/
def Shown.none : Shown := ⟨[], [], [], []⟩

/-- What a pass shows of its document. -/
def Pass.shown (p : Pass) : Shown where
  starts := entriesOf Scanner.opened p.visits
  ends := entriesOf Scanner.closed p.visits
  sections := entriesOf Scanner.sectionAt p.visits
  text := Text.unlines p.lines

namespace Document

/-- All that the document set shows of a document. -/
def shown (d : Document) (f : Path) : Shown :=
  ⟨d.startsIn f, d.endsIn f, d.sectionsIn f, d.textOf f⟩

/-- A pass over a document that was not seen shows what its lines say. -/
theorem shown_foldl_step_self {d : Document} {s : Scanner} (h : d.shown s.file = .none)
    (lines : List Text) :
    (lines.foldl Scanner.step (s, d)).2.shown s.file = (⟨s, lines⟩ : Pass).shown := by
  obtain ⟨hstarts, hends, hsections, htext⟩ := Shown.mk.inj h
  have hrun := recorded_starts.foldl_step lines (s := s) (d := d) (by simp [hstarts])
  have hrun' := recorded_ends.foldl_step lines (s := s) (d := d) (by simp [hends])
  have hrun'' := recorded_sections.foldl_step lines (s := s) (d := d) (by simp [hsections])
  have hkept := foldl_step_append (fun d => d.textOf s.file) (fun _ line => line ++ ['\n'])
    (fun d' s' line hs => by rw [textOf_record, hs, if_pos BEq.rfl]) lines rfl d
  have hlines : (s.visits lines).flatMap (fun v => v.2 ++ ['\n']) = Text.unlines lines := by
    conv => rhs; rw [Text.unlines, ← s.map_snd_visits lines, List.flatMap_map]
  rw [hstarts] at hrun
  rw [hends] at hrun'
  rw [hsections] at hrun''
  rw [htext, hlines] at hkept
  exact Shown.mk.injEq .. ▸ ⟨hrun, hrun', hrun'', hkept⟩

/-- A pass over a document shows nothing new of the others. -/
theorem shown_foldl_step_other (lines : List Text) {s : Scanner} {f : Path}
    (hf : (s.file == f) = false) (d : Document) :
    (lines.foldl Scanner.step (s, d)).2.shown f = d.shown f := by
  induction lines generalizing s d with
  | nil => rfl
  | cons line lines ih =>
      have hstep : Scanner.step (s, d) line = (s.next line, d.record s line) := rfl
      have hnext : ((s.next line).file == f) = false := by rw [Scanner.next_file]; exact hf
      have htext : (d.record s line).textOf f = d.textOf f := by
        rw [textOf_record, if_neg (by simp [hf])]
      rw [List.foldl_cons, hstep, ih hnext, shown, shown, recorded_starts.other d s line f hf,
        recorded_ends.other d s line f hf, recorded_sections.other d s line f hf, htext]

theorem definitionsOf_foldl_step (lines : List Text) (s : Scanner) (d : Document)
    (x : ChunkName) :
    (lines.foldl Scanner.step (s, d)).2.chunks.definitionsOf x
      = d.chunks.definitionsOf x ++ (s.visits lines).flatMap fun v => v.1.defined v.2 x :=
  foldl_step_append (fun d => d.chunks.definitionsOf x) (fun s line => s.defined line x)
    (fun d s line _ => d.definitionsOf_record s line x) lines rfl d

/-! ## The list of documents -/

/-- No document is on the list twice. -/
def Distinct (d : Document) : Prop :=
  d.inputs.Pairwise fun p q => (p == q) = false

/-- Scheduling goes on with the list, and puts no document on it twice. -/
structure Grows (d d' : Document) : Prop where
  kept : d.inputs <+: d'.inputs
  distinct : d.Distinct → d'.Distinct

theorem Grows.refl (d : Document) : d.Grows d :=
  ⟨List.prefix_rfl, id⟩

theorem Grows.trans {d d' d'' : Document} (h : d.Grows d') (h' : d'.Grows d'') :
    d.Grows d'' :=
  ⟨h.kept.trans h'.kept, h'.distinct ∘ h.distinct⟩

theorem grows_schedule (d : Document) (path : Path) : d.Grows (d.schedule path) := by
  by_cases hc : d.inputs.contains path = true
  · have hsame : d.schedule path = d := by
      rw [schedule, addNew, if_pos hc]
    rw [hsame]
    exact Grows.refl d
  · have hadd : (d.schedule path).inputs = d.inputs ++ [path] := by
      rw [schedule, addNew]
      exact if_neg hc
    constructor
    · rw [hadd]
      exact List.prefix_append _ _
    · intro h
      rw [Distinct, hadd]
      refine List.pairwise_append.mpr ⟨h, List.pairwise_singleton _ _, ?_⟩
      intro p hp q hq
      rw [List.mem_singleton.mp hq]
      refine Bool.eq_false_iff.mpr fun heq => hc ?_
      exact List.contains_iff_exists_mem_beq.mpr ⟨p, hp, BEq.symm heq⟩

theorem grows_foldl_schedule (paths : List Path) (d : Document) :
    d.Grows (paths.foldl schedule d) := by
  induction paths generalizing d with
  | nil => exact Grows.refl d
  | cons path paths ih => exact (d.grows_schedule path).trans (ih (d.schedule path))

theorem grows_scheduleLinks (d : Document) (s : Scanner) (line : Text) :
    d.Grows (d.scheduleLinks s line) := by
  rw [scheduleLinks]
  split
  · exact grows_foldl_schedule _ d
  · exact Grows.refl d

theorem grows_foldl_step (lines : List Text) (s : Scanner) (d : Document) :
    d.Grows (lines.foldl Scanner.step (s, d)).2 := by
  induction lines generalizing s d with
  | nil => exact Grows.refl d
  | cons line lines ih =>
      have hstep : d.Grows (d.record s line) := by
        have hlinks := d.grows_scheduleLinks s line
        constructor
        · rw [inputs_record]
          exact hlinks.kept
        · rw [Distinct, Distinct, inputs_record]
          exact hlinks.distinct
      exact hstep.trans (ih (s.next line) (d.record s line))

/-- Where links are not followed, the list stays as it is. -/
theorem inputs_foldl_step (lines : List Text) {s : Scanner} (hs : s.followLinks = false)
    (d : Document) : (lines.foldl Scanner.step (s, d)).2.inputs = d.inputs := by
  induction lines generalizing s d with
  | nil => rfl
  | cons line lines ih =>
      have hstep : Scanner.step (s, d) line = (s.next line, d.record s line) := rfl
      have hnext : (s.next line).followLinks = false := by
        rw [Scanner.next]
        split <;> exact hs
      rw [List.foldl_cons, hstep, ih hnext, inputs_record, scheduleLinks, hs,
        if_neg (by simp)]

end Document

/-! ## One pass after the other -/

namespace Scan

variable {read : Path → Except Fault Text} {follow : Bool} {scan : Scan} {path : Path}

/-- A scan has made these passes, and shows what their lines say and nothing else. -/
structure Passed (read : Path → Except Fault Text) (scan : Scan) (ps : List Pass) :
    Prop where
  of : ∀ p ∈ ps, p.Of read
  shown : ∀ p ∈ ps, scan.document.shown p.file = p.shown
  unseen : ∀ f, (∀ p ∈ ps, (p.file == f) = false) → scan.document.shown f = .none
  lines : ∀ x, scan.document.chunks.linesOf x
    = (ps.flatMap Pass.visits).flatMap fun v => v.1.taken v.2 x
  definitions : ∀ x, scan.document.chunks.definitionsOf x
    = (ps.flatMap Pass.visits).flatMap fun v => v.1.defined v.2 x

/-- One document more is one pass more. -/
theorem Passed.file {ps : List Pass} (h : scan.Passed read ps)
    (hnew : ∀ p ∈ ps, (p.file == path) = false)
    (hok : (file read follow scan path).failure = none) :
    ∃ p : Pass, p.file = path ∧ (file read follow scan path).Passed read (ps ++ [p]) := by
  obtain ⟨content, -, hread, hend, heq⟩ := file_eq hok
  refine ⟨⟨scan.scanner.startFile path follow, content.lines⟩, rfl, ?_⟩
  rw [heq]
  constructor
  · intro p hp
    rcases List.mem_append.mp hp with hp | hp
    · exact h.of p hp
    · rw [List.mem_singleton.mp hp]
      exact ⟨Scanner.at_startFile _ path follow, rfl, ⟨content, hread, rfl⟩, hend⟩
  · intro p hp
    rcases List.mem_append.mp hp with hp | hp
    · have hother : (path == p.file) = false := by
        rw [BEq.comm]
        exact hnew p hp
      rw [← h.shown p hp]
      exact Document.shown_foldl_step_other content.lines hother scan.document
    · rw [List.mem_singleton.mp hp]
      exact Document.shown_foldl_step_self (h.unseen path hnew) content.lines
  · intro f hf
    have hpath : (path == f) = false := hf _ (List.mem_append_right _ List.mem_cons_self)
    rw [← h.unseen f fun p hp => hf p (List.mem_append_left _ hp)]
    exact Document.shown_foldl_step_other content.lines hpath scan.document
  · intro x
    rw [Scanner.linesOf_foldl_step, h.lines, List.flatMap_append, List.flatMap_append,
      List.flatMap_singleton]
    rfl
  · intro x
    rw [Document.definitionsOf_foldl_step, h.definitions, List.flatMap_append,
      List.flatMap_append, List.flatMap_singleton]
    rfl

/-- Any number of documents are as many passes. -/
theorem Passed.foldl {paths : List Path} {ps : List Pass} (h : scan.Passed read ps)
    (hnew : ∀ p ∈ ps, ∀ path ∈ paths, (p.file == path) = false)
    (hdistinct : paths.Pairwise fun p q => (p == q) = false)
    (hok : (paths.foldl (Scan.file read follow) scan).failure = none) :
    ∃ qs : List Pass, qs.map Pass.file = paths ∧
      (paths.foldl (Scan.file read follow) scan).Passed read (ps ++ qs) := by
  induction paths generalizing scan ps with
  | nil => exact ⟨[], rfl, by rw [List.append_nil]; exact h⟩
  | cons path paths ih =>
      obtain ⟨hpath, hpaths⟩ := List.pairwise_cons.mp hdistinct
      obtain ⟨p, rfl, hp⟩ := h.file (fun q hq => hnew q hq path List.mem_cons_self)
        (failure_of_foldl hok)
      have hnew' : ∀ q ∈ ps ++ [p], ∀ path' ∈ paths, (q.file == path') = false := by
        intro q hq path' hpath'
        rcases List.mem_append.mp hq with hq | hq
        · exact hnew q hq path' (List.mem_cons_of_mem _ hpath')
        · rw [List.mem_singleton.mp hq]
          exact hpath path' hpath'
      obtain ⟨qs, rfl, hqs⟩ := ih hp hnew' hpaths hok
      refine ⟨p :: qs, rfl, ?_⟩
      rw [List.append_assoc] at hqs
      exact hqs

/-- Documents whose links are not followed leave the list as it is. -/
theorem inputs_foldl {paths : List Path}
    (hok : (paths.foldl (Scan.file read false) scan).failure = none) :
    (paths.foldl (Scan.file read false) scan).document.inputs = scan.document.inputs := by
  induction paths generalizing scan with
  | nil => rfl
  | cons path paths ih =>
      obtain ⟨content, -, -, -, heq⟩ := file_eq (failure_of_foldl hok)
      rw [List.foldl_cons, ih hok, heq]
      exact Document.inputs_foldl_step content.lines rfl scan.document

/-- **A run is the passes over its inputs.**  A run that did not fail has made one pass
    over each document on its list, in the order of the list, on which no document
    stands twice. -/
theorem passed_run {root : Path} {book : Bool} (h : (run read root book).failure = none) :
    (run read root book).document.Distinct ∧
      ∃ ps : List Pass, ps.map Pass.file = (run read root book).document.inputs ∧
        (run read root book).Passed read ps := by
  rw [run] at h ⊢
  generalize hstart :
    (⟨.start root.normalize, Document.empty.schedule root.normalize, [], none⟩ : Scan) = start
    at h ⊢
  generalize hfirst : file read book start root.normalize = first at h ⊢
  have hempty : start.Passed read [] := by
    rw [← hstart]
    exact ⟨List.forall_mem_nil _, List.forall_mem_nil _, fun _ _ => rfl, fun _ => rfl, fun _ => rfl⟩
  have hok : first.failure = none := failure_of_foldl h
  rw [← hfirst] at hok
  obtain ⟨p, hp, hpassed⟩ := hempty.file (List.forall_mem_nil _) hok
  -- the root comes first on the list, and its links come behind it
  have hgrows : start.document.Grows first.document := by
    obtain ⟨content, -, -, -, heq⟩ := file_eq hok
    rw [← hfirst, heq]
    exact Document.grows_foldl_step _ _ _
  have hinputs : start.document.inputs = [root.normalize] := by
    rw [← hstart]
    rfl
  obtain ⟨more, hmore⟩ := hgrows.kept
  rw [hinputs, List.singleton_append] at hmore
  have hdistinct : first.document.Distinct :=
    hgrows.distinct (by rw [Document.Distinct, hinputs]; exact List.pairwise_singleton _ _)
  have hlist := hdistinct
  rw [Document.Distinct, ← hmore] at hlist
  obtain ⟨hroot, hrest⟩ := List.pairwise_cons.mp hlist
  rw [hfirst] at hpassed
  rw [← hmore] at h ⊢
  obtain ⟨qs, hqs, hall⟩ := hpassed.foldl
    (fun q hq path hpath => by
      rw [List.mem_singleton.mp hq, hp]
      exact hroot path hpath) hrest h
  have hsame := inputs_foldl h
  refine ⟨?_, p :: qs, ?_, hall⟩
  · rw [Document.Distinct]
    rw [hsame]
    exact hdistinct
  · rw [hsame, ← hmore, List.map_cons, hp, hqs]

end Scan

end Literate
