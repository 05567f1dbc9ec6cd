import Literate.Proofs.Link.Grammar

/-! # Rewriting a line

    A line is copied with new paths for some of its links.  The copy takes the
    line from byte to byte, so the line has to be cut where paths start and end,
    and whether it was changed at all is told by how much of it is used.

    * The bytes given with a link are those of its path (`Finds.slice?_eq`), and
      each path ends before the next one starts (`Finds.pairwise_lt`).
    * Replacing paths is said without a copy: each path gives way to the answer
      for it, if there is one, and all between the paths stays (`Spliced`).
      There is always one such text, and only one (`exists_spliced`,
      `Spliced.unique`).
    * The copy of a line comes to this text.  What is written, what is passed by
      since, and what the links to come make of their text are together the same
      at every link (`Spliced.copyLinks_eq`).  The byte up to which the line is
      used is its first until a link gets a path, and then the end of that link's
      old path (`copyLinks_used`).
    * Where the answer depends on nothing but the link, this is the line put
      together again from its segments (`spliced_retarget`). -/

namespace Literate

namespace Link

/-! ## The bytes of a link -/

/-- What is found is a link. -/
theorem Finds.grammatical {pos : Nat} {t : Text} {found : List (Link × Nat × Nat)}
    (h : Finds pos t found) {a : Link × Nat × Nat} (hmem : a ∈ found) : a.1.Grammatical := by
  induction h with
  | none _ => exact nomatch hmem
  | next _ htaken _ ih =>
      rcases List.mem_cons.mp hmem with rfl | hmem
      · exact htaken.1.1
      · exact ih hmem

theorem Grammatical.byteSize_path_pos {l : Link} (h : l.Grammatical) : 0 < l.path.byteSize := by
  obtain ⟨stem, -, hpath⟩ := h.path_ending
  rw [hpath, Text.byteSize_append]
  exact Nat.lt_add_left _ (by decide)

/-- The bytes given with a link are those of its path. -/
theorem Finds.slice?_eq {t : Text} {found : List (Link × Nat × Nat)} (h : Finds 0 t found)
    {l : Link} {start stop : Nat} (hmem : (l, start, stop) ∈ found) :
    t.slice? start stop = some l.path ∧ start < stop ∧ stop ≤ t.byteSize := by
  obtain ⟨before, behind, rfl, rfl, rfl, -⟩ := h.stands hmem
  have hpath := (h.grammatical hmem).byteSize_path_pos
  rw [Nat.zero_add, Nat.zero_add]
  refine ⟨Text.slice?_eq_some_iff.mpr ⟨_, behind, rfl, rfl, rfl⟩, ?_, ?_⟩
  · rw [Text.byteSize_append _ l.path]
    exact Nat.lt_add_of_pos_right hpath
  · rw [Text.byteSize_append _ behind]
    exact Nat.le_add_right _ _

/-- Each path ends before the next one starts. -/
theorem Finds.pairwise_lt {pos : Nat} {t : Text} {found : List (Link × Nat × Nat)}
    (h : Finds pos t found) : found.Pairwise (fun a b => a.2.2 < b.2.1) := by
  induction h with
  | none _ => exact List.Pairwise.nil
  | @next pos skipped rest l found _ _ hrest ih =>
      refine List.Pairwise.cons ?_ ih
      rintro ⟨l', start, stop⟩ hmem
      obtain ⟨before, behind, -, rfl, -⟩ := hrest.stands hmem
      simp only [text, textWith, Text.byteSize_append]
      have hbracket : Text.byteSize [')'] = 1 := rfl
      omega

/-! ## Replacing paths -/

section Splicing

variable {pos : Nat} {t out : Text} {links : List (Link × Nat × Nat)}
  {answers : List (Option Text)}

/-- A text whose first byte is the byte `pos` of a line, links with the bytes of their paths, an
    answer for each of them, and the text with the answers in place of the paths.  A path that
    gets no answer stays, and so does all between the paths. -/
inductive Spliced : Nat → Text → List (Link × Nat × Nat) → List (Option Text) → Text → Prop where
  | rest {pos : Nat} {t : Text} : Spliced pos t [] [] t
  | path {pos : Nat} {gap t out : Text} {l : Link} {answer : Option Text}
      {links : List (Link × Nat × Nat)} {answers : List (Option Text)} :
      Spliced (pos + (gap ++ l.path).byteSize) t links answers out →
      Spliced pos (gap ++ l.path ++ t)
        ((l, pos + gap.byteSize, pos + (gap ++ l.path).byteSize) :: links) (answer :: answers)
        (gap ++ answer.getD l.path ++ out)

/-- A text before the first path stays. -/
theorem Spliced.append_left (before : Text)
    (h : Spliced (pos + before.byteSize) t links answers out) :
    Spliced pos (before ++ t) links answers (before ++ out) := by
  generalize hpos : pos + before.byteSize = pos' at h
  cases h with
  | rest => exact Spliced.rest
  | @path _ gap t out l answer links answers h =>
      subst hpos
      have hgap : ∀ u : Text,
          pos + before.byteSize + u.byteSize = pos + (before ++ u).byteSize := by
        intro u
        rw [Text.byteSize_append, Nat.add_assoc]
      rw [hgap, ← List.append_assoc] at h
      have hsplice := @Spliced.path pos (before ++ gap) t out l answer links answers h
      rw [hgap, hgap]
      simpa only [List.append_assoc] using hsplice

/-- Of a link only the path is replaced. -/
theorem Spliced.link {l : Link} {answer : Option Text}
    (h : Spliced (pos + l.text.byteSize) t links answers out) :
    Spliced pos (l.text ++ t) ((l, pos + 2, pos + 2 + l.path.byteSize) :: links)
      (answer :: answers) (l.textWith (answer.getD l.path) ++ out) := by
  have hstart : Text.byteSize [']', '('] = 2 := rfl
  have hopen : pos + 2 + l.path.byteSize = pos + Text.byteSize ([']', '('] ++ l.path) := by
    rw [Text.byteSize_append, hstart, Nat.add_assoc]
  have hclose : pos + l.text.byteSize
      = pos + Text.byteSize ([']', '('] ++ l.path) + Text.byteSize (l.tail ++ [')']) := by
    rw [text, textWith, List.append_assoc, Text.byteSize_append, Nat.add_assoc]
  rw [hclose] at h
  have hsplice := @Spliced.path _ _ _ _ _ answer _ _ h.append_left
  rw [hstart] at hsplice
  rw [hopen]
  simpa only [text, textWith, List.append_assoc] using hsplice

/-- Whatever the answers are, there is a text with them in place of the paths. -/
theorem exists_spliced (pos : Nat) (segs : List LinkSegment)
    (hlength : answers.length = (spansFrom pos segs).length) :
    ∃ out, Spliced pos (segs.flatMap LinkSegment.text) (spansFrom pos segs) answers out := by
  induction segs generalizing pos answers with
  | nil =>
      obtain rfl := List.length_eq_zero_iff.mp hlength
      exact ⟨[], Spliced.rest⟩
  | cons segment segs ih =>
      cases segment with
      | char c =>
          obtain ⟨out, hout⟩ := ih (pos + c.utf8Size) hlength
          exact ⟨[c] ++ out, Spliced.append_left [c] hout⟩
      | link l =>
          obtain ⟨answer, answers, rfl⟩ := List.exists_cons_of_length_eq_add_one hlength
          obtain ⟨out, hout⟩ := ih (pos + l.text.byteSize) (Nat.succ.inj hlength)
          exact ⟨_, hout.link⟩

/-- The answers of a function of links, put in segment by segment. -/
theorem spliced_retargetSegment (f : Link → Option Text) (pos : Nat) (segs : List LinkSegment) :
    Spliced pos (segs.flatMap LinkSegment.text) (spansFrom pos segs)
      ((spansFrom pos segs).map fun a => f a.1) (segs.flatMap (retargetSegment f)) := by
  induction segs generalizing pos with
  | nil => exact Spliced.rest
  | cons segment segs ih =>
      cases segment with
      | char c => exact Spliced.append_left [c] (ih (pos + c.utf8Size))
      | link l => exact (ih (pos + l.text.byteSize)).link

/-- Line, links and answers tell the text. -/
theorem Spliced.unique {out' : Text} (h : Spliced pos t links answers out)
    (h' : Spliced pos t links answers out') : out = out' := by
  induction h generalizing out' with
  | rest =>
      cases h'
      rfl
  | @path pos gap t out l answer links answers _ ih =>
      generalize htext : gap ++ l.path ++ t = text at h'
      generalize hstart : pos + gap.byteSize = start at h'
      generalize hstop : pos + (gap ++ l.path).byteSize = stop at h'
      cases h' with
      | @path _ gap' t' out' _ _ _ _ h' =>
          have hgap := Nat.add_left_cancel hstart
          rw [List.append_assoc, List.append_assoc] at htext
          obtain ⟨rfl, hbehind⟩ := Text.append_inj_of_byteSize htext hgap
          obtain rfl := List.append_cancel_left hbehind
          rw [ih h']

/-- Paths in place of themselves leave the text as it is. -/
theorem Spliced.eq_of_own (h : Spliced pos t links answers out)
    (hown : ∀ a answer, (a, answer) ∈ links.zip answers → answer.getD a.1.path = a.1.path) :
    out = t := by
  induction h with
  | rest => rfl
  | @path pos gap t out l answer links answers _ ih =>
      have hpath : answer.getD l.path = l.path := hown _ _ List.mem_cons_self
      rw [hpath, ih fun a answer hmem => hown a answer (List.mem_cons_of_mem _ hmem)]

end Splicing

/-! ## Copying a line -/

/-- A copy in the making, at the byte `pos` of a line: `t` is still to come, and `pending` is all
    that stands between it and what of the line is used. -/
def Copy.At (copy : Copy) (line : Text) (pos : Nat) (pending t : Text) : Prop :=
  ∃ used : Text, line = used ++ pending ++ t ∧ used.byteSize = copy.used ∧
    (used ++ pending).byteSize = pos

namespace Copy.At

variable {copy : Copy} {line : Text} {pos : Nat} {pending t : Text}

/-- The line can be cut at what is used and at the byte where the copy is. -/
theorem slice?_eq (h : copy.At line pos pending t) :
    line.slice? copy.used pos = some pending := by
  obtain ⟨used, hline, hused, hpos⟩ := h
  exact Text.slice?_eq_some_iff.mpr ⟨used, t, hline, hused, hpos⟩

theorem cutAt?_eq (h : copy.At line pos pending t) :
    ∃ used, line.cutAt? copy.used = some (used, pending ++ t) := by
  obtain ⟨used, hline, hused, -⟩ := h
  refine ⟨used, Text.cutAt?_eq_some_iff.mpr ⟨?_, hused⟩⟩
  rw [hline, List.append_assoc]

/-- Text that is passed by is pending. -/
theorem pass {passed : Text} (h : copy.At line pos pending (passed ++ t)) :
    copy.At line (pos + passed.byteSize) (pending ++ passed) t := by
  obtain ⟨used, hline, hused, rfl⟩ := h
  refine ⟨used, ?_, hused, ?_⟩
  · rw [hline]
    simp only [List.append_assoc]
  · rw [← List.append_assoc, Text.byteSize_append _ passed]

/-- Once the line is used up to where the copy is, nothing is pending. -/
theorem use (h : copy.At line pos pending t) (written : Text) :
    Copy.At ⟨written, pos⟩ line pos [] t := by
  obtain ⟨used, hline, -, hpos⟩ := h
  refine ⟨used ++ pending, ?_, hpos, ?_⟩
  · rw [List.append_nil, hline]
  · rw [List.append_nil, hpos]

end Copy.At

section Copying

variable {σ : Type} {replace : Link × Nat × Nat → StateM σ (Option Text)} {line : Text}

/-- The links are asked one after the other. -/
theorem mapM_cons_run (a : Link × Nat × Nat) (links : List (Link × Nat × Nat)) (s : σ) :
    ((a :: links).mapM replace).run s =
      ((replace a s).1 :: ((links.mapM replace).run (replace a s).2).1,
        ((links.mapM replace).run (replace a s).2).2) := by
  rw [List.mapM_cons]
  rfl

theorem length_mapM_run (links : List (Link × Nat × Nat)) (s : σ) :
    ((links.mapM replace).run s).1.length = links.length := by
  induction links generalizing s with
  | nil => rfl
  | cons a links ih => rw [mapM_cons_run, List.length_cons, List.length_cons, ih]

theorem exists_of_mapM_cons {a : Link × Nat × Nat} {links : List (Link × Nat × Nat)} {s s' : σ}
    {answer : Option Text} {answers : List (Option Text)}
    (h : ((a :: links).mapM replace).run s = (answer :: answers, s')) :
    ∃ s₁, replace a s = (answer, s₁) ∧ (links.mapM replace).run s₁ = (answers, s') := by
  rw [mapM_cons_run] at h
  obtain ⟨hcons, rfl⟩ := Prod.mk.inj h
  obtain ⟨rfl, rfl⟩ := List.cons.inj hcons
  exact ⟨_, rfl, rfl⟩

/-- Each answer was given to its link. -/
theorem exists_of_mem_zip_mapM {links : List (Link × Nat × Nat)} {s : σ} {a : Link × Nat × Nat}
    {answer : Option Text} (h : (a, answer) ∈ links.zip ((links.mapM replace).run s).1) :
    a ∈ links ∧ ∃ s', (replace a s').1 = answer := by
  induction links generalizing s with
  | nil => exact nomatch h
  | cons b links ih =>
      rw [mapM_cons_run, List.zip_cons_cons] at h
      rcases List.mem_cons.mp h with heq | h
      · obtain ⟨rfl, rfl⟩ := Prod.mk.inj heq
        exact ⟨List.mem_cons_self, s, rfl⟩
      · exact ⟨List.mem_cons_of_mem _ (ih h).1, (ih h).2⟩

/-- **The copy of a line is made to its end.**  What it has written in the end, with the rest of
    the line, is what it had written before, with what was pending then and with the text that was
    to come, the answers in place of its paths. -/
theorem Spliced.copyLinks_eq {pos : Nat} {t out : Text} {links : List (Link × Nat × Nat)}
    {answers : List (Option Text)} (h : Spliced pos t links answers out) {s s' : σ}
    (hanswers : (links.mapM replace).run s = (answers, s')) {copy : Copy} {pending : Text}
    (hat : copy.At line pos pending t) :
    ∃ copy' pos' pending' t', copyLinks replace line links copy s = some (copy', s') ∧
      copy'.At line pos' pending' t' ∧
      copy'.written ++ (pending' ++ t') = copy.written ++ (pending ++ out) := by
  induction h generalizing s copy pending with
  | @rest pos t =>
      obtain ⟨-, rfl⟩ := Prod.mk.inj hanswers
      exact ⟨copy, pos, pending, t, rfl, hat, rfl⟩
  | @path pos gap t out l answer links answers _ ih =>
      obtain ⟨s₁, hreplace, hrest⟩ := exists_of_mapM_cons hanswers
      rw [copyLinks, hreplace]
      have hstop : pos + (gap ++ l.path).byteSize = pos + gap.byteSize + l.path.byteSize := by
        rw [Text.byteSize_append, Nat.add_assoc]
      rw [hstop] at ih ⊢
      rw [List.append_assoc] at hat
      have hstart := hat.pass
      cases answer with
      | none =>
          -- a link that gets no path is passed by
          obtain ⟨copy', pos', pending', t', hcopy, hat', hwritten⟩ := ih hrest hstart.pass
          refine ⟨copy', pos', pending', t', hcopy, hat', ?_⟩
          simpa only [List.append_assoc, Option.getD_none] using hwritten
      | some path =>
          -- a new path is written behind what is pending, and the line is used up to the old one
          obtain ⟨copy', pos', pending', t', hcopy, hat', hwritten⟩ :=
            ih hrest (hstart.pass.use (copy.written ++ (pending ++ gap) ++ path))
          refine ⟨copy', pos', pending', t', ?_, hat', ?_⟩
          · dsimp only
            rw [hstart.slice?_eq]
            exact hcopy
          · simpa only [List.append_assoc, Option.getD_some, List.nil_append] using hwritten

/-- The line is used from its start until a link gets a path, and then up to the end of one. -/
theorem copyLinks_used {links : List (Link × Nat × Nat)} {copy copy' : Copy} {s s' : σ}
    (h : copyLinks replace line links copy s = some (copy', s')) :
    (((links.mapM replace).run s).1.all Option.isNone = true ∧ copy' = copy) ∨
    (((links.mapM replace).run s).1.all Option.isNone = false ∧
      ∃ a ∈ links, copy'.used = a.2.2) := by
  induction links generalizing copy s with
  | nil =>
      obtain ⟨rfl, -⟩ := Prod.mk.inj (Option.some.inj h)
      exact Or.inl ⟨rfl, rfl⟩
  | cons a links ih =>
      rw [copyLinks] at h
      rw [mapM_cons_run, List.all_cons]
      rcases hreplace : replace a s with ⟨_ | path, s₁⟩
      · rw [hreplace] at h
        rcases ih h with hsame | ⟨hnew, b, hb, hused⟩
        · exact Or.inl hsame
        · exact Or.inr ⟨hnew, b, List.mem_cons_of_mem a hb, hused⟩
      · rw [hreplace] at h
        obtain ⟨between, -, hrest⟩ := Option.bind_eq_some_iff.mp h
        refine Or.inr ⟨rfl, ?_⟩
        rcases ih hrest with ⟨-, rfl⟩ | ⟨-, b, hb, hused⟩
        · exact ⟨a, List.mem_cons_self, rfl⟩
        · exact ⟨b, List.mem_cons_of_mem a hb, hused⟩

/-- A line is rewritten to the text with the answers in place of the paths, and stays the same if
    there is none. -/
theorem rewrite_eq {answers : List (Option Text)} {s s' : σ} {out : Text}
    (hanswers : ((spans line).mapM replace).run s = (answers, s'))
    (hout : Spliced 0 line (spans line) answers out) :
    rewrite replace line s
      = some (if answers.all Option.isNone then .same else .changed out, s') := by
  have hat : Copy.At ⟨[], 0⟩ line 0 [] line := ⟨[], rfl, rfl, rfl⟩
  obtain ⟨copy, pos, pending, t, hcopy, hat, hwritten⟩ := hout.copyLinks_eq hanswers hat
  rw [rewrite, hcopy, Option.bind_some]
  have hused := copyLinks_used hcopy
  rw [hanswers] at hused
  rcases hused with ⟨hnone, rfl⟩ | ⟨hsome, ⟨l, start, stop⟩, hmem, hused⟩
  · rw [if_pos hnone]
    rfl
  · -- no path ends at the first byte of the line
    have hbytes := (finds_spans line).slice?_eq hmem
    have hne : copy.used ≠ 0 := by
      rw [hused]
      exact Nat.ne_of_gt (Nat.zero_lt_of_lt hbytes.2.1)
    obtain ⟨used, hcut⟩ := hat.cutAt?_eq
    dsimp only
    rw [if_neg hne, hcut, Option.map_some, hwritten, hsome]
    rfl

theorem all_isNone_iff {answers : List (Option Text)} :
    answers.all Option.isNone = true ↔ ∀ answer ∈ answers, answer = none := by
  simp only [List.all_eq_true, Option.isNone_iff_eq_none]

/-- Whatever the answers are, the line is rewritten to the text with them. -/
theorem exists_rewritten (replace : Link × Nat × Nat → StateM σ (Option Text)) (line : Text)
    (s : σ) :
    ∃ answers s' out rewritten, ((spans line).mapM replace).run s = (answers, s') ∧
      Spliced 0 line (spans line) answers out ∧
      rewrite replace line s = some (rewritten, s') ∧ rewritten.text line = out ∧
      (rewritten = .same ↔ ∀ answer ∈ answers, answer = none) := by
  obtain ⟨out, hout⟩ := exists_spliced 0 (segments line) (length_mapM_run (spans line) s)
  rw [flatMap_text_segments] at hout
  refine ⟨_, _, out, _, rfl, hout, rewrite_eq rfl hout, ?_, ?_⟩
  · split
    · next hnone =>
        refine (hout.eq_of_own ?_).symm
        intro a answer hmem
        rw [all_isNone_iff.mp hnone answer (List.of_mem_zip hmem).2, Option.getD_none]
    · rfl
  · rw [← all_isNone_iff]
    split
    · next hnone => exact ⟨fun _ => hnone, fun _ => rfl⟩
    · next hsome => exact ⟨fun heq => (nomatch heq), fun hnone => absurd hnone hsome⟩

end Copying

/-! ## Answers that depend on the link alone -/

theorem mapM_pure_run {σ : Type} (f : Link → Option Text) (links : List (Link × Nat × Nat))
    (s : σ) :
    (links.mapM (fun a => (pure (f a.1) : StateM σ (Option Text)))).run s
      = (links.map fun a => f a.1, s) := by
  rw [List.mapM_pure]
  rfl

theorem map_fst_spans (line : Text) : (spans line).map Prod.fst = ofLine line := by
  rw [spans, ofLine]
  generalize 0 = pos
  generalize segments line = segs
  induction segs generalizing pos with
  | nil => rfl
  | cons segment segs ih =>
      cases segment with
      | char c => exact ih _
      | link l => exact congrArg (l :: ·) (ih _)

/-- A line is retargeted unless none of its links gets a path. -/
theorem retargets_eq (f : Link → Option Text) (line : Text) :
    retargets f line = !((spans line).map fun a => f a.1).all Option.isNone := by
  rw [retargets, ← map_fst_spans, List.any_map, List.all_map, List.not_all_eq_any_not]
  refine List.any_congr rfl fun a => ?_
  rw [Function.comp_apply, Function.comp_apply]
  cases f a.1 <;> rfl

/-- The answers of a function of links make the retargeted line. -/
theorem spliced_retarget (f : Link → Option Text) (line : Text) :
    Spliced 0 line (spans line) ((spans line).map fun a => f a.1) (retarget f line) := by
  have hsplice := spliced_retargetSegment f 0 (segments line)
  rwa [flatMap_text_segments] at hsplice

/-- **Rewriting a line puts the answers in place of the paths.**  The bytes given with the links of
    a line are those of their paths, and each path ends before the next starts.  So however the
    links are answered, one after the other, the line is cut where it can be, and becomes the one
    text that has the answers in place of the paths and is the line otherwise; it stays the same if
    and only if no link gets an answer.  Paths answered by themselves leave the line as it is, and
    where the answers depend on nothing but the link, the line is retargeted by them. -/
theorem rewriting_puts_answers_in_place (line : Text) :
    (∀ l start stop, (l, start, stop) ∈ spans line →
      line.slice? start stop = some l.path ∧ start < stop ∧ stop ≤ line.byteSize) ∧
    (spans line).Pairwise (fun a b => a.2.2 < b.2.1) ∧
    ∀ (σ : Type) (replace : Link × Nat × Nat → StateM σ (Option Text)) (s : σ),
      (∃ answers s' out rewritten, ((spans line).mapM replace).run s = (answers, s') ∧
        (∀ out', Spliced 0 line (spans line) answers out' ↔ out' = out) ∧
        rewrite replace line s = some (rewritten, s') ∧ rewritten.text line = out ∧
        (rewritten = .same ↔ ∀ answer ∈ answers, answer = none)) ∧
      ((∀ a ∈ spans line, ∀ s', (replace a s').1 = some a.1.path) →
        ∃ rewritten s', rewrite replace line s = some (rewritten, s') ∧
          rewritten.text line = line) ∧
      ∀ f : Link → Option Text,
        rewrite (fun a => pure (f a.1)) line s
          = some (if retargets f line then .changed (retarget f line) else .same, s) := by
  have hfinds := finds_spans line
  refine ⟨fun l start stop hmem => hfinds.slice?_eq hmem, hfinds.pairwise_lt, ?_⟩
  intro σ replace s
  obtain ⟨answers, s', out, rewritten, hanswers, hout, hrewrite, htext, hsame⟩ :=
    exists_rewritten replace line s
  refine ⟨⟨answers, s', out, rewritten, hanswers, ?_, hrewrite, htext, hsame⟩, ?_, ?_⟩
  · intro out'
    constructor
    · intro hout'
      exact hout'.unique hout
    · rintro rfl
      exact hout
  · intro hown
    refine ⟨rewritten, s', hrewrite, htext.trans (hout.eq_of_own ?_)⟩
    intro a answer hmem
    have hzip : (a, answer) ∈ (spans line).zip (((spans line).mapM replace).run s).1 := by
      rw [hanswers]
      exact hmem
    obtain ⟨ha, s₁, rfl⟩ := exists_of_mem_zip_mapM hzip
    rw [hown a ha s₁, Option.getD_some]
  · intro f
    rw [rewrite_eq (mapM_pure_run f (spans line) s) (spliced_retarget f line), retargets_eq]
    cases ((spans line).map fun a => f a.1).all Option.isNone <;> rfl

/-- Two links behind a letter of two bytes. -/
def twoLinks : Text :=
  "é [a](a.md#x) [b](b.md \"t\")".toList

/-- Gives only the second link that it is asked for a path. -/
def secondOnly (_ : Link × Nat × Nat) : StateM Nat (Option Text) :=
  fun asked => (if asked = 1 then some "ü.html".toList else none, asked + 1)

theorem second_of_two_links_gets_a_path :
    twoLinks.slice? 7 11 = some "a.md".toList ∧
    rewrite secondOnly twoLinks 0 = some (.changed "é [a](a.md#x) [b](ü.html \"t\")".toList, 2) ∧
    Spliced 0 twoLinks (spans twoLinks) [none, some "ü.html".toList]
      "é [a](a.md#x) [b](ü.html \"t\")".toList ∧
    ∃ rewritten s', rewrite (fun a => pure (some a.1.path)) twoLinks () = some (rewritten, s') ∧
      rewritten.text twoLinks = twoLinks := by
  obtain ⟨hbytes, -, hrewriting⟩ := rewriting_puts_answers_in_place twoLinks
  have hrun : rewrite secondOnly twoLinks 0
      = some (.changed "é [a](a.md#x) [b](ü.html \"t\")".toList, 2) := by decide +kernel
  have hspans : spans twoLinks = [(⟨"a.md".toList, some "#x".toList, none⟩, 7, 11),
      (⟨"b.md".toList, none, some " \"t\"".toList⟩, 19, 23)] := by decide +kernel
  have hasked : ((spans twoLinks).mapM secondOnly).run 0 = ([none, some "ü.html".toList], 2) := by
    rw [hspans]
    rfl
  obtain ⟨answers, s', out, rewritten, hanswers, hout, hrewrite, htext, -⟩ :=
    (hrewriting Nat secondOnly 0).1
  obtain ⟨rfl, -⟩ := Prod.mk.inj (hasked.symm.trans hanswers)
  obtain ⟨rfl, -⟩ := Prod.mk.inj (Option.some.inj (hrun.symm.trans hrewrite))
  refine ⟨?_, hrun, (hout _).mpr htext, ?_⟩
  · exact (hbytes _ 7 11 (hspans ▸ List.mem_cons_self)).1
  · exact (hrewriting Unit (fun a => pure (some a.1.path)) ()).2.1 fun _ _ _ => rfl

end Link

end Literate
