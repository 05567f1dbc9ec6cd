import Literate.Proofs.Document.Record
import Literate.Proofs.Section.Numbering

/-! # Sections are numbered upwards

    A scanner reads lines and goes on to other documents, in any order and as
    often as it is made to.  The section that it stands in never loses in number,
    and a heading makes it gain (`Move.numbers_le_next`, `Move.lt_of_heading`).

    * So the headings of a run have their numbers in strictly increasing order,
      over all documents (`Move.pairwise_headings`).
    * In the index of one document no two lines have the same number
      (`Move.Ordered.distinct`), even if the document is begun more than once: a
      heading has a number that was never there, and the first line takes over
      the current one only where nothing is on record yet. -/

namespace Literate

/-! ## Entries of an index -/

namespace LineMap

variable {ν : Type} {m : LineMap ν} {n : Nat} {v : ν}

theorem mem_of_mem_insert {e : Nat × ν} (h : e ∈ m.insert n v) : e = (n, v) ∨ e ∈ m := by
  induction m with
  | nil => exact Or.inl (List.mem_singleton.mp h)
  | cons e' m ih =>
      obtain ⟨k, w⟩ := e'
      rw [insert] at h
      split at h
      · exact List.mem_cons.mp h
      · split at h
        · rcases List.mem_cons.mp h with h | h
          · exact Or.inl h
          · exact Or.inr (List.mem_cons_of_mem _ h)
        · rcases List.mem_cons.mp h with h | h
          · exact Or.inr (h ▸ List.mem_cons_self)
          · exact (ih h).imp_right (List.mem_cons_of_mem _)

/-- What holds between any two entries, and between the new one and the old ones, holds behind
    an insertion. -/
theorem pairwise_insert {R : Nat × ν → Nat × ν → Prop} (hsymm : ∀ e e', R e e' → R e' e)
    (hm : m.Pairwise R) (hnew : ∀ e ∈ m, R (n, v) e) : (m.insert n v).Pairwise R := by
  induction m with
  | nil => exact List.pairwise_singleton _ _
  | cons e m ih =>
      obtain ⟨k, w⟩ := e
      obtain ⟨hfirst, hrest⟩ := List.pairwise_cons.mp hm
      have hnew' : ∀ e ∈ m, R (n, v) e := fun e he => hnew e (List.mem_cons_of_mem _ he)
      rw [insert]
      split
      · exact List.pairwise_cons.mpr ⟨hnew, hm⟩
      · split
        · exact List.pairwise_cons.mpr ⟨hnew', hrest⟩
        · refine List.pairwise_cons.mpr ⟨fun e he => ?_, ih hrest hnew'⟩
          rcases mem_of_mem_insert he with rfl | he
          · exact hsymm _ _ (hnew (k, w) List.mem_cons_self)
          · exact hfirst e he

theorem get?_cons (m : LineMap ν) (n k : Nat) (v : ν) :
    get? k ((n, v) :: m) = if k = n then some v else get? k m := by
  rw [get?, List.lookup_cons]
  by_cases hk : k = n
  · rw [beq_iff_eq.mpr hk, if_pos hk]
  · rw [beq_eq_false_iff_ne.mpr hk, if_neg hk]
    rfl

theorem get?_insert (m : LineMap ν) (n k : Nat) (v : ν) :
    get? k (m.insert n v) = if k = n then some v else get? k m := by
  induction m with
  | nil => exact get?_cons [] n k v
  | cons e m ih =>
      obtain ⟨k', w⟩ := e
      rw [insert]
      split
      · rw [get?_cons]
      · split
        · next hsame =>
            rw [get?_cons, get?_cons, hsame]
            split <;> rfl
        · rw [get?_cons, get?_cons, ih]
          split
          · rw [if_neg (by omega)]
          · rfl

theorem mem_of_get? (h : get? n m = some v) : (n, v) ∈ m := by
  induction m with
  | nil => cases h
  | cons e m ih =>
      rw [get?_cons] at h
      split at h
      · next hkey =>
          rw [hkey, ← Option.some.inj h]
          exact List.mem_cons_self
      · exact List.mem_cons_of_mem _ (ih h)

end LineMap

/-! ## Moves -/

/-- What a scanner can be made to do: read a line, or go on to another document. -/
inductive Move where
  | line (text : Text)
  | file (path : Path) (followLinks : Bool)

namespace Move

/-- The scanner behind a move. -/
def next (s : Scanner) : Move → Scanner
  | line text => s.next text
  | file path followLinks => s.startFile path followLinks

/-- Scanner and document set behind a move. -/
def apply (state : Scanner × Document) : Move → Scanner × Document
  | line text => Scanner.step state text
  | file path followLinks => (state.1.startFile path followLinks, state.2)

/-- The heading that a move meets, and the section that it opens. -/
def heading? (s : Scanner) : Move → Option (Text × Section)
  | line text =>
    match s.kind text with
    | .heading _ _ => some (text, (s.next text).current)
    | _ => none
  | file _ _ => none

/-- The headings that moves meet, in order. -/
def headings (s : Scanner) : List Move → List (Text × Section)
  | [] => []
  | move :: moves => (move.heading? s).toList ++ headings (move.next s) moves

variable {s : Scanner} {move : Move} {moves : List Move}

theorem fst_apply (state : Scanner × Document) (move : Move) :
    (move.apply state).1 = move.next state.1 := by
  cases move <;> rfl

/-! ## One move -/

/-- A heading counts the section up. -/
theorem numbers_of_heading {line title : Text} {level : Nat}
    (h : s.kind line = .heading level title) :
    (s.next line).current.numbers = Section.advance s.current.numbers level := by
  obtain ⟨-, -, hheading⟩ := Scanner.kind_eq_heading_iff.mp h
  simp only [Scanner.next, h, Section.next?, hheading]
  rfl

theorem lt_of_heading {line title : Text} {level : Nat} (h : s.kind line = .heading level title) :
    s.current.numbers < (s.next line).current.numbers := by
  obtain ⟨-, -, hheading⟩ := Scanner.kind_eq_heading_iff.mp h
  rw [numbers_of_heading h]
  exact Section.lt_advance _ (Section.level_of_heading? hheading).2

theorem heading?_eq_some {h : Text × Section} (hmove : move.heading? s = some h) :
    ∃ level title, s.kind h.1 = .heading level title ∧ move = .line h.1 ∧
      h.2 = (move.next s).current := by
  cases move with
  | file path followLinks => cases hmove
  | line text =>
      simp only [heading?] at hmove
      split at hmove
      · next level title hkind =>
          obtain rfl := Option.some.inj hmove
          exact ⟨level, title, hkind, rfl, rfl⟩
      · cases hmove

/-- Before and behind a line that is no heading the scanner stands in the same section. -/
theorem numbers_next (s : Scanner) (move : Move) :
    (move.next s).current.numbers = s.current.numbers ∨
      ∃ line level title, move = .line line ∧ s.kind line = .heading level title := by
  cases move with
  | file path followLinks => exact Or.inl rfl
  | line text =>
      by_cases hh : ∃ level title, s.kind text = .heading level title
      · obtain ⟨level, title, hk⟩ := hh
        exact Or.inr ⟨text, level, title, rfl, hk⟩
      · left
        rw [next, Scanner.next_current fun level title hk => hh ⟨level, title, hk⟩]

/-- No move takes the section back. -/
theorem numbers_le_next (s : Scanner) (move : Move) :
    s.current.numbers ≤ (move.next s).current.numbers := by
  rcases numbers_next s move with hsame | ⟨line, level, title, rfl, hk⟩
  · exact le_of_eq hsame.symm
  · exact le_of_lt (lt_of_heading hk)

/-- Numbers are counted from one. -/
theorem one_le_next (h : ∀ n ∈ s.current.numbers, 1 ≤ n) (move : Move) :
    ∀ n ∈ (move.next s).current.numbers, 1 ≤ n := by
  rcases numbers_next s move with hsame | ⟨line, level, title, rfl, hk⟩
  · rw [hsame]
    exact h
  · rw [next, numbers_of_heading hk]
    exact Section.one_le_of_mem_advance h level

/-! ## The headings of a run -/

/-- All headings still to come have greater numbers. -/
theorem lt_of_mem_headings {h : Text × Section} (hh : h ∈ headings s moves) :
    s.current.numbers < h.2.numbers := by
  induction moves generalizing s with
  | nil => cases hh
  | cons move moves ih =>
      rcases List.mem_append.mp hh with hh | hh
      · obtain ⟨level, title, hkind, hmove, hsection⟩ := heading?_eq_some (Option.mem_toList.mp hh)
        rw [hsection, hmove]
        exact lt_of_heading hkind
      · exact lt_of_le_of_lt (numbers_le_next s move) (ih hh)

/-- The headings of a run are numbered upwards. -/
theorem pairwise_headings (s : Scanner) (moves : List Move) :
    (headings s moves).Pairwise fun h h' => h.2.numbers < h'.2.numbers := by
  induction moves generalizing s with
  | nil => exact List.Pairwise.nil
  | cons move moves ih =>
      refine List.pairwise_append.mpr ⟨?_, ih _, ?_⟩
      · cases move.heading? s with
        | none => exact List.Pairwise.nil
        | some h => exact List.pairwise_singleton _ _
      · intro h hh h' hh'
        obtain ⟨-, -, -, -, hsection⟩ := heading?_eq_some (Option.mem_toList.mp hh)
        rw [hsection]
        exact lt_of_mem_headings hh'

/-- A heading has as many numbers as signs, each at least one. -/
theorem numbers_of_mem_headings (hs : ∀ n ∈ s.current.numbers, 1 ≤ n) {h : Text × Section}
    (hh : h ∈ headings s moves) :
    h.2.numbers.length = (h.1.takeWhile (· == '#')).length ∧ ∀ n ∈ h.2.numbers, 1 ≤ n := by
  induction moves generalizing s with
  | nil => cases hh
  | cons move moves ih =>
      rcases List.mem_append.mp hh with hh | hh
      · obtain ⟨level, title, hkind, hmove, hsection⟩ := heading?_eq_some (Option.mem_toList.mp hh)
        obtain ⟨-, -, hheading⟩ := Scanner.kind_eq_heading_iff.mp hkind
        obtain ⟨hlevel, hone⟩ := Section.level_of_heading? hheading
        rw [hsection]
        refine ⟨?_, one_le_next hs move⟩
        rw [hmove, next, numbers_of_heading hkind, Section.length_advance _ hone, hlevel]
      · exact ih (one_le_next hs move) hh

theorem one_le_foldl_next (hs : ∀ n ∈ s.current.numbers, 1 ≤ n) (moves : List Move) :
    ∀ n ∈ (moves.foldl next s).current.numbers, 1 ≤ n := by
  induction moves generalizing s with
  | nil => exact hs
  | cons move moves ih => exact ih (one_le_next hs move)

end Move

/-! ## What a line does to the index of sections -/

namespace Document

variable {d : Document} {s : Scanner} {line : Text}

theorem sectionsIn_congr (d : Document) {f g : Path} (h : (f == g) = true) :
    d.sectionsIn f = d.sectionsIn g := by
  rw [sectionsIn, sectionsIn, d.sectionStarts.get?_congr h]

/-- A heading is entered under its line; the opening of the document then adds nothing. -/
theorem sectionsIn_record_of_heading {level : Nat} {title : Text}
    (h : s.kind line = .heading level title) (f : Path) :
    (d.record s line).sectionsIn f
      = if s.file == f then (d.sectionsIn s.file).insert (s.lineNumber + 1) (s.next line).current
        else d.sectionsIn f := by
  have hentered := d.sectionsIn_recordSection ⟨s.file, s.lineNumber + 1⟩ (s.next line).current
  rw [sectionsIn_record, recordSections_of_heading h]
  split
  · next hzero =>
      have hthere : (((d.recordSection ⟨s.file, s.lineNumber + 1⟩
          (s.next line).current).sectionsIn s.file).get? 1).isSome := by
        rw [hentered, if_pos BEq.rfl, LineMap.get?_insert, if_pos (by rw [hzero])]
        rfl
      rw [sectionsIn_recordOpening, if_pos hthere, hentered, hentered, if_pos BEq.rfl]
      split <;> rfl
  · exact hentered f

/-- Another line is entered only if it is the first one and nothing is on record there. -/
theorem sectionsIn_record_of_not_heading (h : ∀ level title, s.kind line ≠ .heading level title)
    (f : Path) :
    (d.record s line).sectionsIn f
      = if s.lineNumber = 0 ∧ (d.sectionsIn s.file).get? 1 = none then
          if s.file == f then (d.sectionsIn s.file).insert 1 s.current else d.sectionsIn f
        else d.sectionsIn f := by
  rw [sectionsIn_record, recordSections_of_not_heading h]
  by_cases hzero : s.lineNumber = 0
  · rw [if_pos hzero, sectionsIn_recordOpening]
    cases hone : (d.sectionsIn s.file).get? 1 with
    | none => simp [hzero]
    | some sec =>
        simp only [Option.isSome_some, if_true, reduceCtorEq, and_false, if_false]
        split
        · next hf => exact d.sectionsIn_congr hf
        · rfl
  · rw [if_neg hzero, if_neg fun hboth => hzero hboth.1]

end Document

namespace Move

/-! ## What a run enters -/

variable {s : Scanner} {d : Document} {moves : List Move}

/-- The headings of a run are the lines taken for headings, each with the section that was
    entered for it. -/
theorem mem_headings_iff {h : Text × Section} :
    h ∈ headings s moves ↔ ∃ before after s' d',
      moves = before ++ .line h.1 :: after ∧ before.foldl apply (s, d) = (s', d') ∧
      (∃ level title, s'.kind h.1 = .heading level title) ∧
      ((d'.record s' h.1).sectionsIn s'.file).get? (s'.lineNumber + 1) = some h.2 := by
  have hentered : ∀ {s : Scanner} {d : Document} {level : Nat} {text title : Text},
      s.kind text = .heading level title →
      ((d.record s text).sectionsIn s.file).get? (s.lineNumber + 1)
        = some (s.next text).current := by
    intro s d level text title hkind
    rw [Document.sectionsIn_record_of_heading hkind, if_pos BEq.rfl, LineMap.get?_insert, if_pos rfl]
  induction moves generalizing s d with
  | nil => simp [headings]
  | cons move moves ih =>
      have hfirst : move.apply (s, d) = (move.next s, (move.apply (s, d)).2) :=
        Prod.ext (fst_apply (s, d) move) rfl
      have ih := ih (s := move.next s) (d := (move.apply (s, d)).2)
      rw [headings, List.mem_append]
      constructor
      · rintro (hh | hh)
        · obtain ⟨level, title, hkind, rfl, hsection⟩ := heading?_eq_some (Option.mem_toList.mp hh)
          refine ⟨[], moves, s, d, rfl, rfl, ⟨level, title, hkind⟩, ?_⟩
          rw [hentered hkind, hsection]
          rfl
        · obtain ⟨before, after, s', d', rfl, hbefore, hrest⟩ := ih.mp hh
          refine ⟨move :: before, after, s', d', rfl, ?_, hrest⟩
          rw [List.foldl_cons, hfirst, hbefore]
      · rintro ⟨before, after, s', d', hmoves, hbefore, ⟨level, title, hkind⟩, hget⟩
        cases before with
        | nil =>
            obtain ⟨rfl, rfl⟩ := List.cons.inj hmoves
            obtain ⟨rfl, rfl⟩ := Prod.mk.inj hbefore
            rw [hentered hkind] at hget
            left
            rw [Option.mem_toList, heading?, hkind, Option.some.inj hget]
        | cons first before =>
            obtain ⟨rfl, rfl⟩ := List.cons.inj hmoves
            rw [List.foldl_cons, hfirst] at hbefore
            right
            exact ih.mpr ⟨before, after, s', d', rfl, hbefore, ⟨level, title, hkind⟩, hget⟩

/-- In a document set all sections on record are as far as the scanner has come, and in one
    document no two have the same numbers.  A document that has any has one at its first
    line. -/
structure Ordered (s : Scanner) (d : Document) : Prop where
  current : ∀ n ∈ s.current.numbers, 1 ≤ n
  positive : ∀ f, ∀ e ∈ d.sectionsIn f, ∀ n ∈ e.2.numbers, 1 ≤ n
  upTo : ∀ f, ∀ e ∈ d.sectionsIn f, e.2.numbers ≤ s.current.numbers
  distinct : ∀ f, (d.sectionsIn f).Pairwise fun e e' => e.2.numbers ≠ e'.2.numbers
  opened : ∀ f, d.sectionsIn f ≠ [] → ((d.sectionsIn f).get? 1).isSome = true
  begun : s.lineNumber ≠ 0 → ((d.sectionsIn s.file).get? 1).isSome = true

namespace Ordered

variable {s s' : Scanner} {d d' : Document}

theorem start (file : Path) (hd : ∀ f, d.sectionsIn f = []) : Ordered (.start file) d := by
  constructor
  · exact List.forall_mem_nil _
  · intro f e he
    rw [hd] at he
    cases he
  · intro f e he
    rw [hd] at he
    cases he
  · intro f
    rw [hd]
    exact List.Pairwise.nil
  · intro f hne
    exact absurd (hd f) hne
  · intro hne
    exact absurd rfl hne

/-- An entry with the section that the scanner has come to keeps the order, if its numbers are
    new to the document. -/
theorem insert (h : Ordered s d) {n : Nat}
    (hd : ∀ f, d'.sectionsIn f
      = if s.file == f then (d.sectionsIn s.file).insert n s'.current else d.sectionsIn f)
    (hfile : s'.file = s.file) (hone : ∀ n ∈ s'.current.numbers, 1 ≤ n)
    (hle : s.current.numbers ≤ s'.current.numbers)
    (hnew : ∀ e ∈ d.sectionsIn s.file, s'.current.numbers ≠ e.2.numbers)
    (hfirst : n = 1 ∨ ((d.sectionsIn s.file).get? 1).isSome = true) : Ordered s' d' := by
  have hthere : (((d.sectionsIn s.file).insert n s'.current).get? 1).isSome = true := by
    rw [LineMap.get?_insert]
    split
    · rfl
    · next hn => exact hfirst.resolve_left (Ne.symm hn)
  refine ⟨hone, fun f => ?_, fun f => ?_, fun f => ?_, fun f => ?_, fun _ => ?_⟩
  · rw [hd f]
    split
    · intro e he
      rcases LineMap.mem_of_mem_insert he with rfl | he
      · exact hone
      · exact h.positive _ e he
    · exact h.positive f
  · rw [hd f]
    split
    · intro e he
      rcases LineMap.mem_of_mem_insert he with rfl | he
      · exact le_refl _
      · exact le_trans (h.upTo _ e he) hle
    · exact fun e he => le_trans (h.upTo f e he) hle
  · rw [hd f]
    split
    · exact LineMap.pairwise_insert (fun _ _ => Ne.symm) (h.distinct _) hnew
    · exact h.distinct f
  · rw [hd f]
    split
    · exact fun _ => hthere
    · exact h.opened f
  · rw [hd, hfile, if_pos BEq.rfl]
    exact hthere

/-- A line that is not entered keeps it. -/
theorem pass (h : Ordered s d) (hd : ∀ f, d'.sectionsIn f = d.sectionsIn f)
    (hfile : s'.file = s.file) (hcurrent : s'.current = s.current)
    (hbegun : ((d.sectionsIn s.file).get? 1).isSome = true) : Ordered s' d' := by
  refine ⟨?_, fun f => ?_, fun f => ?_, fun f => ?_, fun f => ?_, fun _ => ?_⟩
  · rw [hcurrent]
    exact h.current
  · rw [hd f]
    exact h.positive f
  · rw [hd f, hcurrent]
    exact h.upTo f
  · rw [hd f]
    exact h.distinct f
  · rw [hd f]
    exact h.opened f
  · rw [hd, hfile]
    exact hbegun

theorem line (h : Ordered s d) (text : Text) : Ordered (s.next text) (d.record s text) := by
  have hle := numbers_le_next s (.line text)
  have hone := one_le_next h.current (.line text)
  by_cases hh : ∃ level title, s.kind text = .heading level title
  · obtain ⟨level, title, hk⟩ := hh
    refine h.insert (Document.sectionsIn_record_of_heading hk) (s.next_file text) hone hle ?_ ?_
    · intro e he heq
      -- what is on record stands below the new section
      have hlt := lt_of_le_of_lt (h.upTo _ e he) (lt_of_heading hk)
      rw [heq] at hlt
      exact lt_irrefl _ hlt
    · by_cases hzero : s.lineNumber = 0
      · exact Or.inl (by rw [hzero])
      · exact Or.inr (h.begun hzero)
  · have hno : ∀ level title, s.kind text ≠ .heading level title :=
      fun level title hk => hh ⟨level, title, hk⟩
    have hcurrent := Scanner.next_current hno
    have hrecord : ∀ f, (d.record s text).sectionsIn f = _ :=
      fun f => Document.sectionsIn_record_of_not_heading hno f
    by_cases hopening : s.lineNumber = 0 ∧ (d.sectionsIn s.file).get? 1 = none
    · -- nothing is on record for this document
      have hempty : d.sectionsIn s.file = [] := by
        refine Classical.byContradiction fun hne => ?_
        have hsome := h.opened _ hne
        rw [hopening.2] at hsome
        cases hsome
      refine h.insert (n := 1) (fun f => ?_) (s.next_file text) hone hle ?_ (Or.inl rfl)
      · rw [hrecord, if_pos hopening, hcurrent]
      · rw [hempty]
        exact List.forall_mem_nil _
    · refine h.pass (fun f => ?_) (s.next_file text) hcurrent ?_
      · rw [hrecord, if_neg hopening]
      · by_cases hzero : s.lineNumber = 0
        · rw [← Option.ne_none_iff_isSome]
          exact fun hnone => hopening ⟨hzero, hnone⟩
        · exact h.begun hzero

theorem file (h : Ordered s d) (path : Path) (followLinks : Bool) :
    Ordered (s.startFile path followLinks) d :=
  ⟨h.current, h.positive, h.upTo, h.distinct, h.opened, fun hne => absurd rfl hne⟩

/-- Moves keep the order. -/
theorem foldl (h : Ordered s d) (moves : List Move) :
    Ordered (moves.foldl apply (s, d)).1 (moves.foldl apply (s, d)).2 := by
  induction moves generalizing s d with
  | nil => exact h
  | cons move moves ih =>
      cases move with
      | line text => exact ih (h.line text)
      | file path followLinks => exact ih (h.file path followLinks)

end Ordered

end Move

/-! ## The moves of a scan -/

namespace Scan

variable {read : Path → Except Fault Text} {follow : Bool} {scan : Scan}

/-- A document is gone on to, and its lines are read. -/
theorem exists_moves_file {path : Path} (hok : (file read follow scan path).failure = none) :
    ∃ moves : List Move, moves.foldl Move.apply (scan.scanner, scan.document)
      = ((file read follow scan path).scanner, (file read follow scan path).document) := by
  obtain ⟨content, -, -, -, heq⟩ := file_eq hok
  refine ⟨.file path follow :: content.lines.map .line, ?_⟩
  rw [heq, List.foldl_cons, List.foldl_map]
  exact Prod.ext (Scanner.fst_foldl_step _ _ _) rfl

theorem exists_moves_foldl {paths : List Path}
    (hok : (paths.foldl (file read follow) scan).failure = none) :
    ∃ moves : List Move, moves.foldl Move.apply (scan.scanner, scan.document)
      = ((paths.foldl (file read follow) scan).scanner,
          (paths.foldl (file read follow) scan).document) := by
  induction paths generalizing scan with
  | nil => exact ⟨[], rfl⟩
  | cons path paths ih =>
      obtain ⟨moves, hmoves⟩ := exists_moves_file (failure_of_foldl hok)
      obtain ⟨more, hmore⟩ := ih hok
      refine ⟨moves ++ more, ?_⟩
      rw [List.foldl_append, hmoves, hmore]
      rfl

/-- A run that did not fail makes moves, from the start of its root on. -/
theorem exists_moves_run {root : Path} {book : Bool} (hok : (run read root book).failure = none) :
    ∃ moves : List Move,
      moves.foldl Move.apply (.start root.normalize, Document.empty.schedule root.normalize)
        = ((run read root book).scanner, (run read root book).document) := by
  rw [run] at hok ⊢
  obtain ⟨moves, hmoves⟩ := exists_moves_file (failure_of_foldl hok)
  obtain ⟨more, hmore⟩ := exists_moves_foldl hok
  refine ⟨moves ++ more, ?_⟩
  rw [List.foldl_append, hmoves, hmore]

end Scan

end Literate
