import Literate.Proofs.Document.Passages
import Literate.Proofs.Path.Normal

/-! # Which documents a run reads

    The documents of a run are said here without a scanner: the root, and for a
    book the documents that the links outside of the root's blocks name, each
    at its first mention (`Scan.found`).  A document breaks a run if it cannot be
    read or ends inside a block (`Breaks`).

    A run goes down that list and ends at the first document that breaks it.
    That is shown one document at a time: a document is begun, it fails if and
    only if it breaks (`Scan.failure_file_iff`), and one whose links are not
    followed leaves the list as it is, even if it fails (`Scan.inputs_file`).

    The run takes the list of documents behind the root for complete.  A loop
    that asks the list for its next document every time, while the list may
    still grow (`Scan.Loops`), ends, and with the same scan. -/

namespace Literate

/-- The documents that links outside of blocks lead to, in the order of their first mention,
    without the document itself. -/
def chapters (f : Path) (lines : List Text) : List Path :=
  (((outsideLines lines).flatMap (Document.linkedFrom f)).filter fun g => !g == f).eraseDups

/-- What a document can do to end a run: it cannot be read, or it ends inside a block. -/
inductive Breaks (read : Path → Except Fault Text) (f : Path) : Error → Prop where
  | unreadable {fault : Fault} : read f = .error fault → Breaks read f (.read f fault)
  | unclosed {content : Text} {name : ChunkName} : read f = .ok content →
      Inside content.lines name → Breaks read f (.unclosedChunk ⟨f, content.lines.length⟩ name)

/-! ## The links of one document -/

namespace Document

theorem inputs_foldl_schedule (paths : List Path) (d : Document) :
    (paths.foldl schedule d).inputs = paths.foldl addNew d.inputs := by
  induction paths generalizing d with
  | nil => rfl
  | cons path paths ih => exact ih (d.schedule path)

/-- Where links are followed, the documents that lines name outside of chunks go on the list. -/
theorem inputs_foldl_step_visits (lines : List Text) {s : Scanner} (hs : s.followLinks = true)
    (d : Document) :
    (lines.foldl Scanner.step (s, d)).2.inputs
      = ((s.visits lines).flatMap fun v =>
          if v.1.inChunk then [] else linkedFrom s.file v.2).foldl addNew d.inputs := by
  induction lines generalizing s d with
  | nil => rfl
  | cons line lines ih =>
      have hstep : Scanner.step (s, d) line = (s.next line, d.record s line) := rfl
      have hnext : (s.next line).followLinks = true := by
        rw [Scanner.next]
        split <;> exact hs
      have hlinks : (d.scheduleLinks s line).inputs
          = (if s.inChunk then [] else linkedFrom s.file line).foldl addNew d.inputs := by
        rw [scheduleLinks, hs]
        cases s.inChunk with
        | true => rfl
        | false => exact inputs_foldl_schedule (linkedFrom s.file line) d
      rw [List.foldl_cons, hstep, ih hnext, Scanner.next_file, inputs_record, hlinks,
        Scanner.visits, List.flatMap_cons, List.foldl_append]

/-- A document whose links are followed puts on the list what the links outside of its blocks
    name. -/
theorem inputs_foldl_step_follow (lines : List Text) {s : Scanner} (hs : s.followLinks = true)
    (hout : s.inChunk = false) (d : Document) :
    (lines.foldl Scanner.step (s, d)).2.inputs
      = ((outsideLines lines).flatMap (linkedFrom s.file)).foldl addNew d.inputs := by
  rw [inputs_foldl_step_visits lines hs, Scanner.outsideLines_eq lines hout, List.flatMap_assoc]
  congr 1
  refine List.flatMap_congr fun v _ => ?_
  split
  · rfl
  · exact (List.flatMap_singleton _ _).symm

end Document

/-! ## The end of one document -/

namespace Scanner

variable {s : Scanner} {lines : List Text}

theorem inChunk_of_outside (hs : s.At []) (h : Outside lines) :
    (lines.foldl next s).inChunk = false := by
  obtain ⟨blocks, hblocks⟩ := Fenced.exists_of_outside hs h
  exact hblocks.outside

/-- Behind lines that end inside a block, its chunk is open. -/
theorem chunk_of_inside (hs : s.At []) {name : ChunkName} (h : Inside lines name) :
    (lines.foldl next s).inChunk = true ∧ (lines.foldl next s).chunkName = name := by
  obtain ⟨before, opening, inside, rfl, hbefore, hopen, hno⟩ := h
  obtain ⟨hin, hname⟩ := next_of_open (kind_open (inChunk_of_outside hs hbefore) hopen)
  rw [List.foldl_append, List.foldl_cons, foldl_next_inside hin hno]
  exact ⟨hin, hname⟩

end Scanner

/-- A document breaks a run in one way only. -/
theorem Breaks.unique {read : Path → Except Fault Text} {f : Path} {e e' : Error}
    (h : Breaks read f e) (h' : Breaks read f e') : e = e' := by
  cases h with
  | unreadable hread =>
      cases h' with
      | unreadable hread' =>
          rw [hread] at hread'
          cases hread'
          rfl
      | unclosed hread' _ =>
          rw [hread] at hread'
          cases hread'
  | unclosed hread hin =>
      cases h' with
      | unreadable hread' =>
          rw [hread] at hread'
          cases hread'
      | unclosed hread' hin' =>
          rw [hread] at hread'
          cases hread'
          have hstart := Scanner.at_startFile (.start f) f false
          rw [← (Scanner.chunk_of_inside hstart hin).2, ← (Scanner.chunk_of_inside hstart hin').2]

namespace Scan

variable {read : Path → Except Fault Text} {follow book : Bool} {scan : Scan} {path root : Path}

/-! ## One document of a run -/

/-- A scan that has ended does nothing more. -/
theorem file_of_failure (h : scan.failure ≠ none) : file read follow scan path = scan := by
  rw [file, if_pos (Option.isSome_iff_ne_none.mpr h)]

theorem started_file (h : scan.failure = none) :
    (file read follow scan path).started = scan.started ++ [path] := by
  rw [file, h]
  cases read path <;> rfl

/-- What a document that can be read makes of the list of documents. -/
theorem inputs_file_of_ok {content : Text} (h : scan.failure = none)
    (hread : read path = .ok content) :
    (file read follow scan path).document.inputs
      = (content.lines.foldl Scanner.step
          (scan.scanner.startFile path follow, scan.document)).2.inputs := by
  rw [file, h, if_neg (by simp), hread]
  dsimp only [Scanner.readContent]
  split <;> rfl

/-- A document whose links are not followed leaves the list as it is. -/
theorem inputs_file : (file read false scan path).document.inputs = scan.document.inputs := by
  by_cases hf : scan.failure = none
  · cases hread : read path with
    | error fault => rw [file, hf, hread]; rfl
    | ok content =>
        rw [inputs_file_of_ok hf hread]
        exact Document.inputs_foldl_step content.lines rfl scan.document
  · rw [file_of_failure hf]

theorem inputs_foldl_file (paths : List Path) (scan : Scan) :
    (paths.foldl (file read false) scan).document.inputs = scan.document.inputs := by
  induction paths generalizing scan with
  | nil => rfl
  | cons path paths ih => rw [List.foldl_cons, ih, inputs_file]

/-- A document ends a scan that goes on if and only if it breaks it. -/
theorem failure_file_iff (h : scan.failure = none) {e : Error} :
    (file read follow scan path).failure = some e ↔ Breaks read path e := by
  cases hread : read path with
  | error fault =>
      have hfile : (file read follow scan path).failure = some (.read path fault) := by
        rw [file, h, hread]
        rfl
      rw [hfile]
      constructor
      · rintro ⟨⟩
        exact Breaks.unreadable hread
      · intro hbreaks
        rw [hbreaks.unique (Breaks.unreadable hread)]
  | ok content =>
      have hstart := Scanner.at_startFile scan.scanner path follow
      generalize hs : content.lines.foldl Scanner.next (scan.scanner.startFile path follow) = s
      have hat : s.At content.lines := hs ▸ hstart.foldl_next content.lines
      have hplace : s.location = ⟨path, content.lines.length⟩ := by
        rw [Scanner.location, hat.lineNumber, ← hs, Scanner.file_foldl_next]
        rfl
      have hfile : (file read follow scan path).failure
          = if s.inChunk then some (.unclosedChunk ⟨path, content.lines.length⟩ s.chunkName)
            else none := by
        have hfst := Scanner.fst_foldl_step (scan.scanner.startFile path follow) scan.document
          content.lines
        rw [hs] at hfst
        rw [file, h, hread, ← hplace]
        simp [Scanner.readContent, hfst]
      rw [hfile]
      constructor
      · intro hsome
        cases hin : s.inChunk with
        | true =>
            rw [hin] at hsome
            cases hsome
            exact Breaks.unclosed hread (hat.inside hin)
        | false =>
            rw [hin] at hsome
            cases hsome
      · intro hbreaks
        cases hbreaks with
        | unreadable hread' =>
            rw [hread] at hread'
            cases hread'
        | unclosed hread' hinside =>
            rw [hread] at hread'
            cases hread'
            obtain ⟨hin, rfl⟩ := hs ▸ Scanner.chunk_of_inside hstart hinside
            rw [hin, if_pos rfl]

/-! ## One document after the other -/

theorem foldl_of_failure (paths : List Path) (h : scan.failure ≠ none) :
    paths.foldl (file read follow) scan = scan := by
  induction paths with
  | nil => rfl
  | cons path paths ih => rw [List.foldl_cons, file_of_failure h, ih]

/-- The course of a scan over documents: those that are begun, and what ends it early. -/
inductive Course (read : Path → Except Fault Text) :
    List Path → List Path → Option Error → Prop where
  | done : Course read [] [] none
  | stops {f : Path} {e : Error} (paths : List Path) : Breaks read f e →
      Course read (f :: paths) [f] (some e)
  | goes {f : Path} {paths begun : List Path} {failure : Option Error} :
      (∀ e, ¬ Breaks read f e) → Course read paths begun failure →
        Course read (f :: paths) (f :: begun) failure

namespace Course

variable {paths begun begun' : List Path} {failure failure' : Option Error} {e : Error}

theorem unique (h : Course read paths begun failure) (h' : Course read paths begun' failure') :
    begun = begun' ∧ failure = failure' := by
  induction h generalizing begun' with
  | done =>
      cases h'
      exact ⟨rfl, rfl⟩
  | stops paths hbreaks =>
      cases h' with
      | stops _ hbreaks' => exact ⟨rfl, congrArg some (hbreaks.unique hbreaks')⟩
      | goes hno _ => exact absurd hbreaks (hno _)
  | goes hno _ ih =>
      cases h' with
      | stops _ hbreaks' => exact absurd hbreaks' (hno _)
      | goes _ hrest =>
          obtain ⟨rfl, rfl⟩ := ih hrest
          exact ⟨rfl, rfl⟩

/-- Documents none of which breaks the scan are all begun. -/
theorem all (h : ∀ f ∈ paths, ∀ e, ¬ Breaks read f e) : Course read paths paths none := by
  induction paths with
  | nil => exact done
  | cons f paths ih =>
      exact goes (h f List.mem_cons_self) (ih fun g hg => h g (List.mem_cons_of_mem f hg))

theorem of_none (h : Course read paths begun none) :
    begun = paths ∧ ∀ f ∈ paths, ∀ e, ¬ Breaks read f e := by
  generalize hnone : (none : Option Error) = failure at h
  induction h with
  | done => exact ⟨rfl, List.forall_mem_nil _⟩
  | stops => cases hnone
  | goes hno _ ih =>
      obtain ⟨rfl, hall⟩ := ih hnone
      exact ⟨rfl, List.forall_mem_cons.mpr ⟨hno, hall⟩⟩

/-- The first document that breaks the scan is the last that is begun. -/
theorem first {before : List Path} {f : Path} (h : ∀ g ∈ before, ∀ e, ¬ Breaks read g e)
    (hf : Breaks read f e) (after : List Path) :
    Course read (before ++ f :: after) (before ++ [f]) (some e) := by
  induction before with
  | nil => exact stops after hf
  | cons g before ih =>
      exact goes (h g List.mem_cons_self) (ih fun g' hg => h g' (List.mem_cons_of_mem g hg))

theorem of_some (h : Course read paths begun (some e)) :
    ∃ before f after, paths = before ++ f :: after ∧ (∀ g ∈ before, ∀ e', ¬ Breaks read g e') ∧
      Breaks read f e ∧ begun = before ++ [f] := by
  generalize hsome : some e = failure at h
  induction h with
  | done => cases hsome
  | stops paths hbreaks =>
      cases hsome
      exact ⟨[], _, paths, rfl, List.forall_mem_nil _, hbreaks, rfl⟩
  | goes hno _ ih =>
      obtain ⟨before, f, after, rfl, hbefore, hbreaks, rfl⟩ := ih hsome
      exact ⟨_ :: before, f, after, rfl, List.forall_mem_cons.mpr ⟨hno, hbefore⟩, hbreaks, rfl⟩

end Course

/-- A document behind which the scan goes on does not break it. -/
theorem not_breaks_of_file (h : scan.failure = none)
    (hf : (file read follow scan path).failure = none) (e : Error) : ¬ Breaks read path e := by
  intro hbreaks
  rw [(failure_file_iff h).mpr hbreaks] at hf
  cases hf

/-- A scan that goes on takes its course over the next documents, whether the links of the
    first of them are followed or not. -/
theorem course_foldl (follow follow' : Bool) (h : scan.failure = none) (path : Path)
    (paths : List Path) :
    ∃ begun,
      Course read (path :: paths) begun
        (paths.foldl (file read follow') (file read follow scan path)).failure ∧
      (paths.foldl (file read follow') (file read follow scan path)).started
        = scan.started ++ begun := by
  induction paths generalizing scan path follow with
  | nil =>
      rw [List.foldl_nil]
      refine ⟨[path], ?_, started_file h⟩
      cases hf : (file read follow scan path).failure with
      | some e => exact Course.stops [] ((failure_file_iff h).mp hf)
      | none => exact Course.goes (not_breaks_of_file h hf) Course.done
  | cons next paths ih =>
      cases hf : (file read follow scan path).failure with
      | some e =>
          have hends : (file read follow scan path).failure ≠ none := by simp [hf]
          rw [foldl_of_failure _ hends, hf]
          exact ⟨[path], Course.stops _ ((failure_file_iff h).mp hf), started_file h⟩
      | none =>
          obtain ⟨begun, hcourse, hstarted⟩ := ih follow' hf next
          refine ⟨path :: begun, Course.goes (not_breaks_of_file h hf) hcourse, ?_⟩
          rw [List.foldl_cons, hstarted, started_file h, List.append_assoc]
          rfl

/-! ## The documents of a run -/

/-- The documents of a run: the root, and for a book the chapters that it links to. -/
def found (read : Path → Except Fault Text) (root : Path) (book : Bool) : List Path :=
  root.normalize ::
    match read root.normalize with
    | .ok content => if book then chapters root.normalize content.lines else []
    | .error _ => []

/-- For a book, the list begins with the root and takes in what its links lead to. -/
theorem found_eq_foldl {content : Text} (hread : read root.normalize = .ok content) :
    found read root true
      = ((outsideLines content.lines).flatMap (Document.linkedFrom root.normalize)).foldl addNew
          [root.normalize] := by
  rw [found, hread, foldl_addNew]
  simp [chapters]

/-- A document of a run is the root, or a link of the root leads to it. -/
theorem mem_found_cases {f : Path} (h : f ∈ found read root book) :
    f = root.normalize ∨
      ∃ line, ∃ l ∈ Link.ofLine line, f = Path.resolveLink root.normalize l.path := by
  cases hread : read root.normalize with
  | error fault =>
      rw [found, hread] at h
      exact Or.inl (List.mem_singleton.mp h)
  | ok content =>
      cases book with
      | false =>
          rw [found, hread] at h
          exact Or.inl (List.mem_singleton.mp h)
      | true =>
          rw [found_eq_foldl hread] at h
          rcases mem_of_mem_foldl_addNew h with h | h
          · exact Or.inl (List.mem_singleton.mp h)
          · obtain ⟨line, -, h⟩ := List.mem_flatMap.mp h
            obtain ⟨l, hl, rfl⟩ := List.mem_map.mp h
            exact Or.inr ⟨line, l, (List.mem_filter.mp hl).1, rfl⟩

/-- The documents of a run have normal paths. -/
theorem normalize_of_mem_found {f : Path} (h : f ∈ found read root book) : f.normalize = f := by
  rcases mem_found_cases h with rfl | ⟨line, l, -, rfl⟩
  · exact Path.normalize_normalize _
  · exact Path.normalize_normalize _

/-- The list of documents is complete as soon as the root is read. -/
theorem inputs_first {start : Scan} (hstart : start.failure = none)
    (hroot : start.document.inputs = [root.normalize]) :
    (file read book start root.normalize).document.inputs = found read root book := by
  cases hread : read root.normalize with
  | error fault =>
      rw [file, hstart, found, hread]
      exact hroot
  | ok content =>
      rw [inputs_file_of_ok hstart hread]
      cases book with
      | false =>
          rw [Document.inputs_foldl_step content.lines rfl, hroot, found, hread]
          rfl
      | true =>
          rw [Document.inputs_foldl_step_follow content.lines rfl rfl, hroot]
          exact (found_eq_foldl hread).symm

theorem inputs_eq_found : (run read root book).document.inputs = found read root book := by
  rw [run]
  rw [inputs_foldl_file]
  exact inputs_first rfl rfl

/-- A run takes its course over the documents that it finds. -/
theorem course_run (read : Path → Except Fault Text) (root : Path) (book : Bool) :
    Course read (found read root book) (run read root book).started
      (run read root book).failure := by
  rw [run]
  rw [inputs_first rfl rfl]
  have hstart : (⟨.start root.normalize, Document.empty.schedule root.normalize, [], none⟩ :
      Scan).failure = none := rfl
  obtain ⟨begun, hcourse, hstarted⟩ :=
    course_foldl book false hstart root.normalize ((found read root book).drop 1)
  rw [List.nil_append] at hstarted
  rw [hstarted]
  exact hcourse

/-! ## The loop over the growing list -/

/-- A loop that goes down the list of documents as the list is at every turn, and has `i` of
    them behind it.  Of a book it follows the links of the first. -/
inductive Loops (read : Path → Except Fault Text) (book : Bool) : Nat → Scan → Scan → Prop where
  | done {i : Nat} {scan : Scan} : scan.document.inputs[i]? = none → Loops read book i scan scan
  | fails {i : Nat} {scan : Scan} {f : Path} {follow : Bool} :
      scan.document.inputs[i]? = some f → follow = (book && i == 0) →
      (file read follow scan f).failure ≠ none →
      Loops read book i scan (file read follow scan f)
  | goes {i : Nat} {scan final : Scan} {f : Path} {follow : Bool} :
      scan.document.inputs[i]? = some f → follow = (book && i == 0) →
      (file read follow scan f).failure = none →
      Loops read book (i + 1) (file read follow scan f) final → Loops read book i scan final

theorem Loops.unique {i : Nat} {final final' : Scan} (h : Loops read book i scan final)
    (h' : Loops read book i scan final') : final = final' := by
  induction h generalizing final' with
  | done hnone =>
      cases h' with
      | done => rfl
      | fails hsome => cases hnone.symm.trans hsome
      | goes hsome => cases hnone.symm.trans hsome
  | fails hsome hfollow hfails =>
      cases h' with
      | done hnone => cases hsome.symm.trans hnone
      | fails hsome' hfollow' _ =>
          cases hsome.symm.trans hsome'
          rw [hfollow, hfollow']
      | goes hsome' hfollow' hgoes _ =>
          cases hsome.symm.trans hsome'
          rw [hfollow', ← hfollow] at hgoes
          exact absurd hgoes hfails
  | goes hsome hfollow hgoes _ ih =>
      cases h' with
      | done hnone => cases hsome.symm.trans hnone
      | fails hsome' hfollow' hfails =>
          cases hsome.symm.trans hsome'
          rw [hfollow', ← hfollow] at hfails
          exact absurd hgoes hfails
      | goes hsome' hfollow' _ hrest =>
          cases hsome.symm.trans hsome'
          rw [hfollow', ← hfollow] at hrest
          exact ih hrest

/-- Behind the root the list does not grow, so the loop goes through what is left of it. -/
theorem loops_foldl {i : Nat} {rest : List Path}
    (hrest : scan.document.inputs.drop (i + 1) = rest) :
    Loops read book (i + 1) scan (rest.foldl (file read false) scan) := by
  induction rest generalizing i scan with
  | nil => exact Loops.done (List.getElem?_eq_none (List.drop_eq_nil_iff.mp hrest))
  | cons f rest ih =>
      have hsome : scan.document.inputs[i + 1]? = some f := by
        rw [← List.head?_drop, hrest]
        rfl
      have hfollow : false = (book && i + 1 == 0) := by simp
      by_cases hf : (file read false scan f).failure = none
      · refine Loops.goes hsome hfollow hf (ih ?_)
        rw [inputs_file, ← List.drop_drop, hrest]
        rfl
      · rw [List.foldl_cons, foldl_of_failure rest hf]
        exact Loops.fails hsome hfollow hf

/-- The loop ends with what the run gives. -/
theorem loops_run : Loops read book 0
    ⟨.start root.normalize, Document.empty.schedule root.normalize, [], none⟩
    (run read root book) := by
  rw [run]
  have hroot : (Document.empty.schedule root.normalize).inputs[0]? = some root.normalize := rfl
  have hfollow : book = (book && 0 == 0) := by simp
  by_cases hf : (file read book
      ⟨.start root.normalize, Document.empty.schedule root.normalize, [], none⟩
      root.normalize).failure = none
  · exact Loops.goes hroot hfollow hf (loops_foldl rfl)
  · rw [foldl_of_failure _ hf]
    exact Loops.fails hroot hfollow hf

/-- A run succeeds if and only if no document that it finds breaks it. -/
theorem failure_eq_none_iff :
    (run read root book).failure = none ↔ ∀ f ∈ found read root book, ∀ e, ¬ Breaks read f e := by
  have hcourse := course_run read root book
  constructor
  · intro hok
    rw [hok] at hcourse
    exact hcourse.of_none.2
  · intro hall
    exact (hcourse.unique (Course.all hall)).2

/-- **Which documents a run reads.**  Its inputs are the documents that it finds.  It succeeds
    if and only if none of them breaks it, and has then begun each of them once, in that order;
    else it ends at the first that does.  The loop that asks the growing list for its next
    document ends as well, with the scan of the run and with no other. -/
theorem reads_what_it_finds (read : Path → Except Fault Text) (root : Path) (book : Bool) :
    (run read root book).document.inputs = found read root book ∧
    ((run read root book).failure = none →
      (run read root book).started = found read root book ∧
      (run read root book).document.Distinct) ∧
    ((run read root book).failure = none ↔
      ∀ f ∈ found read root book, ∀ e, ¬ Breaks read f e) ∧
    (∀ e, (run read root book).failure = some e ↔
      ∃ before f after, found read root book = before ++ f :: after ∧
        (∀ g ∈ before, ∀ e', ¬ Breaks read g e') ∧ Breaks read f e ∧
        (run read root book).started = before ++ [f]) ∧
    (∀ final, Loops read book 0
        ⟨.start root.normalize, Document.empty.schedule root.normalize, [], none⟩ final ↔
      final = run read root book) := by
  have hcourse := course_run read root book
  refine ⟨inputs_eq_found, fun hok => ?_, failure_eq_none_iff, fun e => ⟨fun hfails => ?_, ?_⟩,
    fun final => ⟨fun hloop => hloop.unique loops_run, ?_⟩⟩
  · rw [hok] at hcourse
    exact ⟨hcourse.of_none.1, (passed_run hok).1⟩
  · rw [hfails] at hcourse
    exact hcourse.of_some
  · rintro ⟨before, f, after, hfound, hbefore, hbreaks, -⟩
    rw [hfound] at hcourse
    exact (hcourse.unique (Course.first hbefore hbreaks after)).2
  · rintro rfl
    exact loops_run

/-- A book that links twice to one chapter, to itself, out of the book, and from inside a block;
    to its other chapter it links on the fence that opens the block. -/
def folder (p : Path) : Except Fault Text :=
  if p.spelling = "b.md".toList then
    .ok ("[c](c.md) [b](b.md) [x](http://x.md)\n```a.x [d](d.md)\n[e](e.md)\n```\n"
      ++ "[c](./c.md)").toList
  else if p.spelling = "c.md".toList then .ok "[f](f.md)".toList
  else if p.spelling = "d.md".toList then .ok "# D".toList
  else .error .noSuchFile

/-- The book is read with its two chapters, and with nothing that a chapter links to. -/
theorem folder_is_read :
    (run folder ⟨"b.md".toList⟩ true).failure = none ∧
    (run folder ⟨"b.md".toList⟩ true).started.map Path.spelling
      = ["b.md".toList, "c.md".toList, "d.md".toList] ∧
    ∀ f ∈ found folder ⟨"b.md".toList⟩ true, ∀ e, ¬ Breaks folder f e := by
  have hok : (run folder ⟨"b.md".toList⟩ true).failure = none := by decide +kernel
  have hfound : (found folder ⟨"b.md".toList⟩ true).map Path.spelling
      = ["b.md".toList, "c.md".toList, "d.md".toList] := by decide +kernel
  obtain ⟨-, hreads, hclean, -⟩ := reads_what_it_finds folder ⟨"b.md".toList⟩ true
  refine ⟨hok, ?_, hclean.mp hok⟩
  rw [(hreads hok).1]
  exact hfound

end Scan

end Literate
