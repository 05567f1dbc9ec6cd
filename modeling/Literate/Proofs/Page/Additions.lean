import Literate.Page.CrossReference
import Literate.Proofs.Document.Sections
import Literate.Proofs.Section.Moves

/-! # Additions are listed exactly

    Behind a closing fence a page lists the sections of all other definitions of
    the chunk.  What is left out is the first section that is the same as that of
    the fence, which need not belong to the definition that the fence closes.  It
    makes no difference, because definitions in the same section follow each
    other.

    * The sections of the definitions under a name never go back in number, and
      with the same numbers they have the same heading (`Move.Sorted`).  Each line
      keeps this, and so does each document.
    * Definitions also stand in the order of the scan.  So what stands between two
      definitions of one section stands in that section (`Section.Upward.between`).
    * From a list in which equal items follow each other, the first item that is
      equal to another may be taken in its place
      (`Document.eraseFirst_eq_eraseIdx`). -/

namespace Literate

/-! ## Sections that follow each other -/

/-- Where no document stands twice, a document has one place. -/
theorem index_eq_of_beq {inputs : List Path}
    (hdistinct : inputs.Pairwise fun p q => (p == q) = false) {p q : Path} {i j : Nat}
    (hi : inputs[i]? = some p) (hj : inputs[j]? = some q) (hsame : (p == q) = true) : i = j := by
  obtain ⟨hi', rfl⟩ := List.getElem?_eq_some_iff.mp hi
  obtain ⟨hj', rfl⟩ := List.getElem?_eq_some_iff.mp hj
  rcases Nat.lt_trichotomy i j with hlt | heq | hgt
  · have hother := List.pairwise_iff_getElem.mp hdistinct i j hi' hj' hlt
    rw [hsame] at hother
    cases hother
  · exact heq
  · have hother := List.pairwise_iff_getElem.mp hdistinct j i hj' hi' hgt
    rw [BEq.symm hsame] at hother
    cases hother

namespace Section

/-- Two sections are the same when their documents, numbers and headings are. -/
theorem beq_iff {s t : Section} :
    (s == t) = true ↔ (s.file == t.file) = true ∧ s.numbers = t.numbers ∧ s.text = t.text := by
  show (s.file == t.file && (s.numbers == t.numbers && s.text == t.text)) = true ↔ _
  rw [Bool.and_eq_true, Bool.and_eq_true, beq_iff_eq (a := s.numbers), beq_iff_eq (a := s.text)]

/-- The numbers do not go back, and where they stay the heading stays. -/
def NotAfter (s t : Section) : Prop :=
  s.numbers ≤ t.numbers ∧ (s.numbers = t.numbers → s.text = t.text)

theorem NotAfter.trans {s t u : Section} (hst : s.NotAfter t) (htu : t.NotAfter u) :
    s.NotAfter u := by
  refine ⟨le_trans hst.1 htu.1, fun heq => ?_⟩
  have hmiddle : s.numbers = t.numbers := le_antisymm hst.1 (heq ▸ htu.1)
  rw [hst.2 hmiddle, htu.2 (hmiddle ▸ heq)]

/-- The section comes no later than the other, nor does its document. -/
structure Upward (inputs : List Path) (s t : Section) : Prop where
  files : ∃ i j : Nat, inputs[i]? = some s.file ∧ inputs[j]? = some t.file ∧ i ≤ j
  notAfter : s.NotAfter t

namespace Upward

variable {inputs : List Path} {s t u : Section}

/-- What stands between two sections that are the same is that section. -/
theorem between (hdistinct : inputs.Pairwise fun p q => (p == q) = false)
    (hst : Upward inputs s t) (htu : Upward inputs t u) (hsame : (s == u) = true) : t = u := by
  obtain ⟨hfile, hnumbers, -⟩ := beq_iff.mp hsame
  obtain ⟨i, j, hi, hj, hij⟩ := hst.files
  obtain ⟨j', k, hj', hk, hjk⟩ := htu.files
  have hplace : j = j' := index_eq_of_beq hdistinct hj hj' BEq.rfl
  have hends : i = k := index_eq_of_beq hdistinct hi hk hfile
  have hmeet : j' = k := by omega
  have hfiles : t.file = u.file := by
    rw [hmeet, hk] at hj'
    exact (Option.some.inj hj').symm
  have hmiddle : t.numbers = u.numbers :=
    le_antisymm htu.notAfter.1 (hnumbers ▸ hst.notAfter.1)
  obtain ⟨file, numbers, text⟩ := t
  obtain ⟨file', numbers', text'⟩ := u
  rw [show file = file' from hfiles, show numbers = numbers' from hmiddle,
    show text = text' from htu.notAfter.2 hmiddle]

/-- Such sections are spelled the same if they are the same. -/
theorem eq_of_beq (hdistinct : inputs.Pairwise fun p q => (p == q) = false)
    (hst : Upward inputs s t) (hsame : (s == t) = true) : s = t := by
  obtain ⟨i, j, hi, hj, hij⟩ := hst.files
  exact between hdistinct ⟨⟨i, i, hi, hi, Nat.le_refl i⟩, le_refl _, fun _ => rfl⟩ hst hsame

end Upward

end Section

/-! ## Taking one section away -/

/-- Where the items up to a place are all the same, the first may be taken away in place of the
    last. -/
theorem eraseIdx_eq_tail {α : Type} {as : List α} {a : α} {j : Nat}
    (h : ∀ k ≤ j, as[k]? = some a) : as.eraseIdx j = as.tail := by
  induction as generalizing j with
  | nil => rfl
  | cons b as ih =>
      cases j with
      | zero => rfl
      | succ j =>
          have hrest : ∀ k ≤ j, as[k]? = some a := fun k hk => h (k + 1) (Nat.succ_le_succ hk)
          cases as with
          | nil => cases hrest 0 (Nat.zero_le j)
          | cons c as =>
              have hb : b = a := Option.some.inj (h 0 (Nat.zero_le _))
              have hc : c = a := Option.some.inj (hrest 0 (Nat.zero_le _))
              rw [List.eraseIdx_cons_succ, ih hrest, hb, hc]
              rfl

/-- If all that stands between two items that are the same is the same, the first item like
    another may be taken away in its place. -/
theorem Document.eraseFirst_eq_eraseIdx {R : Section → Section → Prop} {ss : List Section}
    (hss : ss.Pairwise R) (hself : ∀ s t, R s t → (s == t) = true → s = t)
    (hbetween : ∀ s t u, R s t → R t u → (s == u) = true → t = u) {s : Section} {j : Nat}
    (hj : ss[j]? = some s) : eraseFirst s ss = ss.eraseIdx j := by
  induction ss generalizing j with
  | nil => cases hj
  | cons t ss ih =>
      obtain ⟨hfirst, hrest⟩ := List.pairwise_cons.mp hss
      rw [eraseFirst]
      split
      · next hsame =>
          -- the first section is the one to take, so everything down to the place is it
          cases j with
          | zero => rfl
          | succ j =>
              have hj : ss[j]? = some s := hj
              obtain ⟨hlt, hget⟩ := List.getElem?_eq_some_iff.mp hj
              have hall : ∀ k ≤ j + 1, (t :: ss)[k]? = some s := by
                intro k hk
                cases k with
                | zero =>
                    have hts : R t s := hget ▸ hfirst _ (List.getElem_mem hlt)
                    exact congrArg some (hself t s hts hsame)
                | succ k =>
                    have hk : k ≤ j := Nat.le_of_succ_le_succ hk
                    have hlt' : k < ss.length := by omega
                    show ss[k]? = some s
                    rcases Nat.eq_or_lt_of_le hk with rfl | hkj
                    · exact hj
                    · have hkt := hfirst _ (List.getElem_mem hlt')
                      have hks := List.pairwise_iff_getElem.mp hrest k j hlt' hlt hkj
                      rw [hget] at hks
                      rw [List.getElem?_eq_getElem hlt', hbetween t _ s hkt hks hsame]
              exact (eraseIdx_eq_tail hall).symm
      · next hother =>
          cases j with
          | zero =>
              have hts : t = s := Option.some.inj hj
              exact absurd (Section.beq_iff.mpr ⟨hts ▸ BEq.rfl, hts ▸ rfl, hts ▸ rfl⟩) hother
          | succ j => rw [List.eraseIdx_cons_succ, ih hrest hj]

theorem Document.addedTo_eq (d : Document) (e : ChunkEnd) :
    d.addedTo e = eraseFirst e.within ((d.chunks.definitionsOf e.name).map Definition.within) := by
  rw [addedTo]
  cases hchunk : d.chunks.get? e.name with
  | none =>
      rw [ChunkTable.definitionsOf, hchunk]
      rfl
  | some chunk => rw [ChunkTable.definitionsOf_eq hchunk]

/-! ## The sections of definitions -/

namespace Move

/-- The sections of the definitions under a name do not go back, and none comes after the one
    that the scanner stands in. -/
structure Sorted (s : Scanner) (d : Document) : Prop where
  upTo : ∀ x, ∀ made ∈ d.chunks.definitionsOf x, made.within.NotAfter s.current
  pairwise : ∀ x, (d.chunks.definitionsOf x).Pairwise fun made made' =>
    made.within.NotAfter made'.within

/-- No line takes the section back. -/
theorem notAfter_next (s : Scanner) (line : Text) : s.current.NotAfter (s.next line).current := by
  by_cases hh : ∃ level title, s.kind line = .heading level title
  · obtain ⟨level, title, hk⟩ := hh
    have hlt := lt_of_heading hk
    exact ⟨le_of_lt hlt, fun heq => absurd heq (ne_of_lt hlt)⟩
  · rw [Scanner.next_current fun level title hk => hh ⟨level, title, hk⟩]
    exact ⟨le_refl _, fun _ => rfl⟩

namespace Sorted

variable {s : Scanner} {d : Document}

theorem line (h : Sorted s d) (text : Text) : Sorted (s.next text) (d.record s text) := by
  have hnext := notAfter_next s text
  have hhere : ∀ x, ∀ made ∈ s.defined text x, made.within = (s.next text).current :=
    fun x made hmade => Scanner.within_of_defined (v := (s, text)) hmade
  constructor
  · intro x made hmade
    rw [Document.definitionsOf_record] at hmade
    rcases List.mem_append.mp hmade with hold | hnew
    · exact (h.upTo x made hold).trans hnext
    · rw [hhere x made hnew]
      exact ⟨le_refl _, fun _ => rfl⟩
  · intro x
    rw [Document.definitionsOf_record]
    refine List.pairwise_append.mpr ⟨h.pairwise x, ?_, ?_⟩
    · rw [Scanner.defined]
      split
      · exact List.pairwise_singleton _ _
      · exact List.Pairwise.nil
    · intro made hold made' hnew
      rw [hhere x made' hnew]
      exact (h.upTo x made hold).trans hnext

theorem file (h : Sorted s d) (path : Path) (followLinks : Bool) :
    Sorted (s.startFile path followLinks) d :=
  ⟨h.upTo, h.pairwise⟩

/-- Moves keep the sections of definitions in order. -/
theorem foldl (h : Sorted s d) (moves : List Move) :
    Sorted (moves.foldl apply (s, d)).1 (moves.foldl apply (s, d)).2 := by
  induction moves generalizing s d with
  | nil => exact h
  | cons move moves ih =>
      cases move with
      | line text => exact ih (h.line text)
      | file path followLinks => exact ih (h.file path followLinks)

end Sorted

end Move

namespace Scan

variable {read : Path → Except Fault Text} {scan : Scan} {ps : List Pass}

theorem sorted_run {root : Path} {book : Bool} (hok : (run read root book).failure = none) :
    Move.Sorted (run read root book).scanner (run read root book).document := by
  obtain ⟨moves, hmoves⟩ := exists_moves_run hok
  have hstart : Move.Sorted (.start root.normalize) (Document.empty.schedule root.normalize) :=
    ⟨fun _ => List.forall_mem_nil _, fun _ => List.Pairwise.nil⟩
  have hend := hstart.foldl moves
  rw [hmoves] at hend
  exact hend

/-- A definition stands in a section of its own document. -/
theorem Passed.within_file (h : scan.Passed read ps) {x : ChunkName} {made : Definition}
    (hmade : made ∈ scan.document.chunks.definitionsOf x) :
    made.within.file = made.location.file := by
  rw [h.definitions] at hmade
  obtain ⟨v, hv, hmade⟩ := List.mem_flatMap.mp hmade
  obtain ⟨p, hp, hv⟩ := List.mem_flatMap.mp hv
  rw [Scanner.within_of_defined hmade, (p.section_start (h.of p hp) hv).1,
    Scanner.location_of_defined hmade]
  exact (Pass.file_of_mem_visits hv).symm

/-- Definitions stand in the order of the scan. -/
theorem Passed.pairwise_definitions (h : scan.Passed read ps) (x : ChunkName) :
    (scan.document.chunks.definitionsOf x).Pairwise fun made made' =>
      made.location.Before (ps.map Pass.file) made'.location := by
  rw [h.definitions]
  refine pairwise_flatMap_place (fun _ _ => Scanner.location_of_defined) fun v => ?_
  rw [Scanner.defined]
  split <;> simp

/-- The sections of the definitions under a name never go back. -/
theorem Passed.pairwise_within (h : scan.Passed read ps)
    (hsorted : Move.Sorted scan.scanner scan.document) (x : ChunkName) :
    ((scan.document.chunks.definitionsOf x).map Definition.within).Pairwise
      (Section.Upward (ps.map Pass.file)) := by
  refine List.pairwise_map.mpr ?_
  refine ((h.pairwise_definitions x).and (hsorted.pairwise x)).imp_of_mem ?_
  rintro made made' hmade hmade' ⟨⟨i, j, hi, hj, horder⟩, hnotAfter⟩
  refine ⟨⟨i, j, ?_, ?_, ?_⟩, hnotAfter⟩
  · rw [h.within_file hmade]
    exact hi
  · rw [h.within_file hmade']
    exact hj
  · rcases horder with hlt | ⟨heq, -⟩
    · exact Nat.le_of_lt hlt
    · exact Nat.le_of_eq heq

end Scan

namespace Document.Accounts

variable {d : Document} {f : Path} {lines : List Text} {blocks : List Fences} {x : ChunkName}

theorem mem_definitionsOf (h : d.Accounts f lines blocks) {first : Nat} {within : Section} :
    ⟨⟨f, first⟩, within⟩ ∈ d.chunks.definitionsOf x ↔
      ∃ b ∈ blocks, b.name = x ∧ b.first = first ∧ b.within = within := by
  have hhere : ⟨⟨f, first⟩, within⟩ ∈ d.chunks.definitionsOf x ↔
      ⟨⟨f, first⟩, within⟩ ∈ (d.chunks.definitionsOf x).filter (·.location.file == f) := by
    rw [List.mem_filter]
    exact ⟨fun hmem => ⟨hmem, BEq.rfl⟩, And.left⟩
  rw [hhere, h.definitions, List.mem_map]
  constructor
  · rintro ⟨b, hb, hmade⟩
    obtain ⟨hb, hname⟩ := List.mem_filter.mp hb
    obtain ⟨hplace, hwithin⟩ := Definition.mk.inj hmade
    exact ⟨b, hb, beq_iff_eq.mp hname, (Location.mk.inj hplace).2, hwithin⟩
  · rintro ⟨b, hb, hname, rfl, rfl⟩
    exact ⟨b, List.mem_filter.mpr ⟨hb, beq_iff_eq.mpr hname⟩, rfl⟩

/-- The definitions that a document makes stand at the opening fences of its blocks. -/
theorem exists_block_iff (h : d.Accounts f lines blocks) {first : Nat} :
    (∃ last, Block lines x first last) ↔
      ∃ within, ⟨⟨f, first⟩, within⟩ ∈ d.chunks.definitionsOf x := by
  constructor
  · rintro ⟨last, hblock⟩
    obtain ⟨b, hb, hname, hfirst, -⟩ := (h.block_iff x first last).mp hblock
    exact ⟨b.within, h.mem_definitionsOf.mpr ⟨b, hb, hname, hfirst, rfl⟩⟩
  · rintro ⟨within, hmade⟩
    obtain ⟨b, hb, hname, hfirst, -⟩ := h.mem_definitionsOf.mp hmade
    exact ⟨b.last, (h.block_iff x first b.last).mpr ⟨b, hb, hname, hfirst, rfl⟩⟩

/-- A closing fence closes a block, and the section on record with it is that of the
    definition. -/
theorem exists_block_of_end (h : d.Accounts f lines blocks) {n : Nat} {e : ChunkEnd}
    (he : (n, e) ∈ d.endsIn f) :
    ∃ first, Block lines e.name first n ∧
      ⟨⟨f, first⟩, e.within⟩ ∈ d.chunks.definitionsOf e.name := by
  rw [h.ends] at he
  obtain ⟨b, hb, hclosing⟩ := List.mem_map.mp he
  obtain ⟨rfl, rfl⟩ := Prod.mk.inj hclosing
  exact ⟨b.first, (h.block_iff _ _ _).mpr ⟨b, hb, rfl, rfl, rfl⟩,
    h.mem_definitionsOf.mpr ⟨b, hb, rfl, rfl, rfl⟩⟩

end Document.Accounts

namespace Scan

variable {read : Path → Except Fault Text} {scan : Scan} {ps : List Pass}

/-- What is on record for any path is on record for a document of the run. -/
theorem Passed.exists_pass_of_end (h : scan.Passed read ps) {f : Path} {n : Nat} {e : ChunkEnd}
    (he : (n, e) ∈ scan.document.endsIn f) :
    ∃ p ∈ ps, (p.file == f) = true ∧ (n, e) ∈ scan.document.endsIn p.file := by
  refine Classical.byContradiction fun hno => ?_
  have hother : ∀ p ∈ ps, (p.file == f) = false := by
    intro p hp
    refine Bool.eq_false_iff.mpr fun hsame => hno ⟨p, hp, hsame, ?_⟩
    rw [Document.endsIn, scan.document.chunkEnds.get?_congr hsame]
    exact he
  obtain ⟨-, hends, -, -⟩ := Shown.mk.inj (h.unseen f hother)
  rw [hends] at he
  cases he

/-- **Additions are listed exactly.**  After a scan that did not fail, the definitions of a
    chunk are the blocks of its name in all inputs, in the order of the scan.  A closing
    fence on record closes one of them, the `j`-th, and the list of additions behind it
    has the sections of all definitions but the `j`-th, in their order.  Section numbers
    are counted without a bound, as long as no counter reaches `2 ^ 32` (`Section`). -/
theorem additions_are_listed_exactly (read : Path → Except Fault Text) (root : Path) (book : Bool)
    {doc : Document} (hdoc : (run read root book).document = doc)
    (hok : (run read root book).failure = none) {f : Path} {n : Nat} {e : ChunkEnd}
    (he : (n, e) ∈ doc.endsIn f) :
    ((doc.chunks.definitionsOf e.name).Pairwise fun made made' =>
      made.location.Before doc.inputs made'.location) ∧
    (∀ made ∈ doc.chunks.definitionsOf e.name, made.location.file ∈ doc.inputs) ∧
    (∀ input ∈ doc.inputs, ∃ content, read input = .ok content ∧ ∀ first,
      (∃ last, Block content.lines e.name first last) ↔
        ∃ within, ⟨⟨input, first⟩, within⟩ ∈ doc.chunks.definitionsOf e.name) ∧
    ∃ input content first j, input ∈ doc.inputs ∧ (input == f) = true ∧
      read input = .ok content ∧ Block content.lines e.name first n ∧
      (doc.chunks.definitionsOf e.name)[j]? = some ⟨⟨input, first⟩, e.within⟩ ∧
      doc.addedTo e = ((doc.chunks.definitionsOf e.name).map Definition.within).eraseIdx j ∧
      (doc.addedTo e).length = (doc.chunks.definitionsOf e.name).length - 1 := by
  subst hdoc
  have hsorted := sorted_run hok
  obtain ⟨hdistinct, ps, hfiles, hps⟩ := passed_run hok
  rw [Document.Distinct, ← hfiles] at hdistinct
  obtain ⟨p, hp, hsame, hend⟩ := hps.exists_pass_of_end he
  obtain ⟨blocks, haccount⟩ := hps.accounts hdistinct hp
  obtain ⟨content, hread, hlines⟩ := (hps.of p hp).read_eq
  obtain ⟨first, hblock, hmade⟩ := haccount.exists_block_of_end hend
  obtain ⟨j, hj⟩ := List.mem_iff_getElem?.mp hmade
  have hsection : ((((run read root book).document.chunks.definitionsOf e.name)).map
      Definition.within)[j]? = some e.within := by
    rw [List.getElem?_map, hj]
    rfl
  have hadded : (run read root book).document.addedTo e
      = (((run read root book).document.chunks.definitionsOf e.name).map
          Definition.within).eraseIdx j := by
    rw [Document.addedTo_eq]
    exact Document.eraseFirst_eq_eraseIdx (hps.pairwise_within hsorted e.name)
      (fun _ _ => Section.Upward.eq_of_beq hdistinct)
      (fun _ _ _ => Section.Upward.between hdistinct) hsection
  rw [← hfiles]
  refine ⟨hps.pairwise_definitions e.name, ?_, ?_, p.file, content, first, j,
    List.mem_map_of_mem hp, hsame, hread, hlines ▸ hblock, hj, hadded, ?_⟩
  · intro made hmade
    rw [hps.definitions] at hmade
    exact file_mem_of_out (fun _ _ => Scanner.location_of_defined) hmade
  · intro input hinput
    obtain ⟨q, hq, rfl⟩ := List.mem_map.mp hinput
    obtain ⟨blocks', haccount'⟩ := hps.accounts hdistinct hq
    obtain ⟨content', hread', hlines'⟩ := (hps.of q hq).read_eq
    refine ⟨content', hread', fun first => ?_⟩
    rw [hlines']
    exact haccount'.exists_block_iff
  · obtain ⟨hlt, -⟩ := List.getElem?_eq_some_iff.mp hj
    rw [hadded, List.length_eraseIdx_of_lt (by rw [List.length_map]; exact hlt), List.length_map]

/-- A book in which one chunk is defined three times: twice in one section and once in a
    chapter. -/
def ledger (p : Path) : Except Fault Text :=
  if p.spelling = ['b'] then
    .ok "# A\n```a.x\n1\n```\n```a.x\n2\n```\n[c](c.md)\n".toList
  else if p.spelling = ['c', '.', 'm', 'd'] then .ok "```a.x\n3\n```\n".toList
  else .error .noSuchFile

/-- What a scan of the book finds. -/
def scannedLedger : Document :=
  (run ledger ⟨['b']⟩ true).document

/-- Behind the second block two definitions are listed, one of them in the same section. -/
theorem additions_of_ledger_listed :
    (run ledger ⟨['b']⟩ true).failure = none ∧
    ∃ e : Nat × ChunkEnd, e ∈ scannedLedger.endsIn ⟨['b']⟩ ∧ e.1 = 7 ∧ e.2.name = ⟨"a.x".toList⟩ ∧
      (scannedLedger.addedTo e.2).length = 2 ∧ (scannedLedger.addedTo e.2).contains e.2.within := by
  have hok : (run ledger ⟨['b']⟩ true).failure = none := by decide +kernel
  have hclosed : ((scannedLedger.endsIn ⟨['b']⟩).any fun e =>
      e.1 == 7 && e.2.name == ⟨"a.x".toList⟩ && (scannedLedger.addedTo e.2).contains e.2.within)
      = true := by decide +kernel
  obtain ⟨e, he, hclosed⟩ := List.any_eq_true.mp hclosed
  rw [Bool.and_eq_true, Bool.and_eq_true, beq_iff_eq, beq_iff_eq] at hclosed
  obtain ⟨⟨hline, hname⟩, hwithin⟩ := hclosed
  obtain ⟨-, -, -, input, content, first, j, -, -, -, -, -, -, hlength⟩ :=
    additions_are_listed_exactly ledger ⟨['b']⟩ true (rfl : _ = scannedLedger) hok he
  have hcount : (scannedLedger.chunks.definitionsOf e.2.name).length = 3 := by
    rw [hname]
    decide +kernel
  refine ⟨hok, e, he, hline, hname, ?_, hwithin⟩
  rw [hlength, hcount]

end Scan

end Literate
