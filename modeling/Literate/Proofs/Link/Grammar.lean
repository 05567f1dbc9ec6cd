import Literate.Proofs.Link.Segments

/-! # The grammar of links

    What a link is, said without a reader: its path, its fragment and its title
    are of the right shape, and it is written with them in this order
    (`Link.Grammatical`, `Link.text`).  A path may have blanks, quotes, brackets
    and further endings in it, so more than one link can begin at a place, one
    for each place where the path could end.

    * The path tells the rest of the link: behind it stands a sign that no path
      has, or a blank that no fragment has, so fragment and title are read off
      the text (`tailAt?_of_grammatical`, `Begins.eq_of_length_eq`).
    * The reader at a place takes the link with the longest path of those that
      begin there (`at?_eq_some_iff`), and nothing only if none begins there
      (`at?_eq_none_iff`).
    * Along a line this is repeated behind each link taken (`Finds`), and the
      segments of the line follow these rules, which leave no choice
      (`finds_spans`, `Finds.unique`). -/

namespace Literate

/-- The blanks by their numbers. -/
def blankNumbers : List Nat :=
  [9, 10, 11, 12, 13, 0x20, 0x85, 0xA0, 0x1680, 0x2000, 0x2001, 0x2002, 0x2003, 0x2004, 0x2005,
    0x2006, 0x2007, 0x2008, 0x2009, 0x200A, 0x2028, 0x2029, 0x202F, 0x205F, 0x3000]

theorem toNat_mem_blankNumbers {c : Char} (h : isBlank c = true) : c.toNat ∈ blankNumbers := by
  simp only [isBlank, Bool.or_eq_true, Bool.and_eq_true, decide_eq_true_eq, beq_iff_eq] at h
  simp only [blankNumbers, List.mem_cons, List.not_mem_nil, or_false]
  omega

/-- No blank is a character of words. -/
theorem isWord_of_isBlank {c : Char} (h : isBlank c = true) : isWord c = false := by
  have hnumbers : ∀ n ∈ blankNumbers, isWord (Char.ofNat n) = false := by decide +kernel
  have hc := hnumbers _ (toNat_mem_blankNumbers h)
  rwa [Char.ofNat_toNat] at hc

namespace Link

/-! ## Links as they are written -/

/-- A fragment: the sign and characters that a fragment may have. -/
def IsFragment (t : Text) : Prop :=
  ∃ cs : Text, t = '#' :: cs ∧ ∀ c ∈ cs, c = '-' ∨ c = '.' ∨ isWord c = true

/-- A title: blanks, and a text without quotes between quotes. -/
def IsTitle (t : Text) : Prop :=
  ∃ blanks inner : Text, t = blanks ++ '"' :: inner ++ ['"'] ∧
    blanks ≠ [] ∧ (∀ c ∈ blanks, isBlank c = true) ∧ '"' ∉ inner

/-- The parts of a link are of the right shape. -/
structure Grammatical (l : Link) : Prop where
  path_chars : ∀ c ∈ l.path, c ≠ ')' ∧ c ≠ '#'
  /-- The path has the ending, and something before it. -/
  path_ending : ∃ stem : Text, stem ≠ [] ∧ l.path = stem ++ ".md".toList
  fragment : ∀ t, l.fragment = some t → IsFragment t
  title : ∀ t, l.title = some t → IsTitle t

/-- A text begins with the link. -/
def Begins (l : Link) (t : Text) : Prop :=
  l.Grammatical ∧ l.text <+: t

/-- A text begins with the link, and with no link that has a longer path. -/
def Taken (l : Link) (t : Text) : Prop :=
  l.Begins t ∧ ∀ l' : Link, l'.Begins t → l'.path.length ≤ l.path.length

theorem isFragmentChar_iff {c : Char} :
    isFragmentChar c = true ↔ c = '-' ∨ c = '.' ∨ isWord c = true := by
  rw [isFragmentChar, Bool.or_eq_true, Bool.or_eq_true, beq_iff_eq, beq_iff_eq, or_assoc]

theorem isPathChar_iff {c : Char} : isPathChar c = true ↔ c ≠ ')' ∧ c ≠ '#' := by
  rw [isPathChar, Bool.and_eq_true, bne_iff_ne, bne_iff_ne]

theorem isPathChar_of_mem_extension : ∀ c ∈ extension, isPathChar c = true := by
  have hall : extension.all isPathChar = true := by decide
  exact List.all_eq_true.mp hall

/-! ## What stands behind a path -/

theorem takeWhile_of_head {p : Char → Bool} {t : Text} (h : ∀ c, t.head? = some c → p c = false) :
    t.takeWhile p = [] ∧ t.dropWhile p = t := by
  cases t with
  | nil => exact ⟨rfl, rfl⟩
  | cons c t =>
      have hc := h c rfl
      rw [List.takeWhile_cons, List.dropWhile_cons, hc]
      exact ⟨rfl, rfl⟩

/-- A run of characters ends where a character stands that is not of their kind. -/
theorem span_append {p : Char → Bool} {run t : Text} (hrun : ∀ c ∈ run, p c = true)
    (h : ∀ c, t.head? = some c → p c = false) :
    (run ++ t).takeWhile p = run ∧ (run ++ t).dropWhile p = t := by
  obtain ⟨htake, hdrop⟩ := takeWhile_of_head h
  rw [List.takeWhile_append_of_pos hrun, List.dropWhile_append_of_pos hrun, htake, hdrop]
  exact ⟨List.append_nil _, rfl⟩

theorem fragmentAt_of_isFragment {fragment : Option Text}
    (hfragment : ∀ t, fragment = some t → IsFragment t) {rest : Text}
    (hrest : ∀ c, rest.head? = some c → isFragmentChar c = false ∧ c ≠ '#') :
    fragmentAt (fragment.getD [] ++ rest) = (fragment, rest) := by
  cases fragment with
  | none =>
      cases rest with
      | nil => rfl
      | cons c rest =>
          have hc := (hrest c rfl).2
          simp [fragmentAt, hc]
  | some t =>
      obtain ⟨cs, rfl, hcs⟩ := hfragment t rfl
      obtain ⟨htake, hdrop⟩ := span_append (fun c hc => isFragmentChar_iff.mpr (hcs c hc))
        fun c hc => (hrest c hc).1
      rw [Option.getD_some, List.cons_append, fragmentAt, htake, hdrop]

theorem titleAt_of_isTitle {title : Option Text} (htitle : ∀ t, title = some t → IsTitle t)
    (more : Text) : titleAt (title.getD [] ++ ')' :: more) = (title, ')' :: more) := by
  cases title with
  | none =>
      have hblank : isBlank ')' = false := by decide
      rw [Option.getD_none, List.nil_append, titleAt, List.takeWhile_cons, hblank]
      rfl
  | some t =>
      obtain ⟨blanks, inner, rfl, hne, hblanks, hinner⟩ := htitle t rfl
      have hquote : isBlank '"' = false := by decide
      obtain ⟨htake, hdrop⟩ := span_append (t := '"' :: (inner ++ '"' :: ')' :: more)) hblanks
        (by rintro c ⟨⟩; exact hquote)
      have hinner' : ∀ c ∈ inner, (c != '"') = true :=
        fun c hc => bne_iff_ne.mpr fun heq => hinner (heq ▸ hc)
      obtain ⟨htake', hdrop'⟩ := span_append (p := (· != '"')) (t := '"' :: ')' :: more) hinner'
        (by rintro c ⟨⟩; rfl)
      have htext : blanks ++ '"' :: inner ++ ['"'] ++ ')' :: more
          = blanks ++ '"' :: (inner ++ '"' :: ')' :: more) := by
        simp only [List.append_assoc, List.cons_append, List.nil_append]
      rw [Option.getD_some, htext, titleAt, htake, hdrop]
      have hsome : blanks.isEmpty = false := List.isEmpty_eq_false_iff.mpr hne
      simp only [hsome, Bool.false_eq_true, if_false, htake', hdrop']

/-- Behind the fragment of a link stands a blank or the bracket. -/
theorem head_behind_fragment {title : Option Text} (htitle : ∀ t, title = some t → IsTitle t)
    (more : Text) {c : Char} (hc : (title.getD [] ++ ')' :: more).head? = some c) :
    isFragmentChar c = false ∧ c ≠ '#' := by
  cases title with
  | none =>
      obtain rfl := Option.some.inj hc
      exact ⟨by decide, by decide⟩
  | some t =>
      obtain ⟨blanks, inner, rfl, hne, hblanks, -⟩ := htitle t rfl
      obtain ⟨b, blanks, rfl⟩ := List.exists_cons_of_ne_nil hne
      obtain rfl := Option.some.inj hc
      have hblank := hblanks b List.mem_cons_self
      refine ⟨Bool.eq_false_iff.mpr fun hfragment => ?_, ?_⟩
      · rcases isFragmentChar_iff.mp hfragment with rfl | rfl | hword
        · exact absurd hblank (by decide)
        · exact absurd hblank (by decide)
        · rw [isWord_of_isBlank hblank] at hword
          exact absurd hword Bool.false_ne_true
      · rintro rfl
        exact absurd hblank (by decide)

/-- Fragment and title of a link are read as they are written. -/
theorem tailAt?_of_grammatical {l : Link} (h : l.Grammatical) (more : Text) :
    tailAt? (l.tail ++ ')' :: more) = some (l.fragment, l.title) := by
  rw [tailAt?, tail, List.append_assoc,
    fragmentAt_of_isFragment h.fragment fun c hc => head_behind_fragment h.title more hc]
  dsimp only
  rw [titleAt_of_isTitle h.title]
  rfl

/-- And what is read as a fragment and a title has their shapes. -/
theorem isFragment_of_fragmentAt {t fragment : Text} (h : (fragmentAt t).1 = some fragment) :
    IsFragment fragment := by
  unfold fragmentAt at h
  split at h
  · next rest =>
      obtain rfl := Option.some.inj h
      exact ⟨_, rfl, fun c hc =>
        isFragmentChar_iff.mp (List.all_eq_true.mp List.all_takeWhile c hc)⟩
  · cases h

theorem isTitle_of_titleAt {t title : Text} (h : (titleAt t).1 = some title) : IsTitle title := by
  rw [titleAt] at h
  split at h
  · cases h
  · next hblanks =>
      split at h
      · next rest _ =>
          split at h
          · obtain rfl := Option.some.inj h
            refine ⟨_, _, rfl, fun hnil => hblanks (List.isEmpty_iff.mpr hnil),
              fun c hc => List.all_eq_true.mp List.all_takeWhile c hc, fun hquote => ?_⟩
            have hne := List.all_eq_true.mp (List.all_takeWhile (p := (· != '"'))) _ hquote
            exact absurd rfl (bne_iff_ne.mp hne)
          · cases h
      · cases h

theorem shapes_of_tailAt? {t : Text} {fragment title : Option Text}
    (h : tailAt? t = some (fragment, title)) :
    (∀ u, fragment = some u → IsFragment u) ∧ ∀ u, title = some u → IsTitle u := by
  rw [tailAt?] at h
  dsimp only at h
  split at h
  · obtain ⟨rfl, rfl⟩ := Prod.mk.inj (Option.some.inj h)
    exact ⟨fun u hu => isFragment_of_fragmentAt hu, fun u hu => isTitle_of_titleAt hu⟩
  · cases h

/-- Of the links that begin at one place, the path tells which one it is. -/
theorem Begins.eq_of_length_eq {l l' : Link} {t : Text} (h : l.Begins t) (h' : l'.Begins t)
    (hlength : l.path.length = l'.path.length) : l = l' := by
  obtain ⟨hl, more, rfl⟩ := h
  obtain ⟨hl', more', htext⟩ := h'
  have hpaths : l'.path ++ (l'.tail ++ ')' :: more') = l.path ++ (l.tail ++ ')' :: more) := by
    simpa [text, textWith] using htext
  obtain ⟨hpath, htails⟩ := List.append_inj hpaths hlength.symm
  have htail := tailAt?_of_grammatical hl' more'
  rw [htails, tailAt?_of_grammatical hl more] at htail
  obtain ⟨hfragment, htitle⟩ := Prod.mk.inj (Option.some.inj htail)
  cases l
  cases l'
  cases hpath
  cases hfragment
  cases htitle
  rfl

theorem Taken.unique {l l' : Link} {t : Text} (h : l.Taken t) (h' : l'.Taken t) : l = l' :=
  h.1.eq_of_length_eq h'.1 (Nat.le_antisymm (h'.2 l h.1) (h.2 l' h'.1))

/-! ## The longest path -/

/-- What is reached can be the rest of a path, with a link's end behind it. -/
theorem reach?_sound {t : Text} {n : Nat} (h : reach? t = some n) :
    (∀ c ∈ t.take n, isPathChar c = true) ∧ (tailAt? (t.drop n)).isSome = true := by
  induction t generalizing n with
  | nil => cases h
  | cons c rest ih =>
      rw [reach?] at h
      split at h
      · next hc =>
          split at h
          · next m hm =>
              obtain rfl := Option.some.inj h
              obtain ⟨hpath, htail⟩ := ih hm
              refine ⟨?_, htail⟩
              rw [List.take_succ_cons]
              intro d hd
              rcases List.mem_cons.mp hd with rfl | hd
              · exact hc
              · exact hpath d hd
          · split at h
            · next hends =>
                obtain rfl := Option.some.inj h
                rw [endsAt] at hends
                split at hends
                · next rest' hrest =>
                    rw [Text.after?_eq_some_iff.mp hrest, List.take_left, List.drop_left]
                    exact ⟨isPathChar_of_mem_extension, hends⟩
                · cases hends
            · cases h
      · cases h

/-- Every place where a path can end is reached, or passed. -/
theorem reach?_complete {path rest : Text} (hchars : ∀ c ∈ path, isPathChar c = true)
    (hending : extension <:+ path) (htail : (tailAt? rest).isSome = true) :
    ∃ n, reach? (path ++ rest) = some n ∧ path.length ≤ n := by
  induction path with
  | nil => exact absurd (List.suffix_nil.mp hending) (by decide)
  | cons c path ih =>
      have hc := hchars c List.mem_cons_self
      have ih := ih fun d hd => hchars d (List.mem_cons_of_mem c hd)
      rw [List.cons_append, reach?, if_pos hc]
      cases hreach : reach? (path ++ rest) with
      | some n =>
          refine ⟨n + 1, rfl, Nat.succ_le_succ ?_⟩
          rcases List.suffix_cons_iff.mp hending with hwhole | hending
          · -- the ending that is reached is as long as the whole path
            obtain ⟨before, after, -, hn⟩ := exists_of_reach? hreach
            have hlength := congrArg List.length hwhole
            rw [List.length_append] at hn
            rw [List.length_cons] at hlength
            omega
          · obtain ⟨m, hm, hle⟩ := ih hending
            rw [hreach] at hm
            obtain rfl := Option.some.inj hm
            exact hle
      | none =>
          rcases List.suffix_cons_iff.mp hending with hwhole | hending
          · have hends : endsAt (c :: (path ++ rest)) = true := by
              rw [← List.cons_append, ← hwhole, endsAt, Text.after?_eq_some_iff.mpr rfl]
              exact htail
            exact ⟨extension.length, if_pos hends, Nat.le_of_eq (congrArg List.length hwhole.symm)⟩
          · obtain ⟨m, hm, -⟩ := ih hending
            rw [hreach] at hm
            cases hm

/-- The reader takes a link that begins there. -/
theorem begins_of_at? {t : Text} {l : Link} (h : at? t = some l) : l.Begins t := by
  obtain ⟨rest, hrest⟩ := exists_text_append h
  refine ⟨?_, rest, hrest.symm⟩
  rw [at?] at h
  split at h
  · next c behind _ =>
      split at h
      · next hc =>
          obtain ⟨n, hn, h⟩ := Option.bind_eq_some_iff.mp h
          obtain ⟨⟨fragment, title⟩, htail, rfl⟩ := Option.map_eq_some_iff.mp h
          obtain ⟨hpath, -⟩ := reach?_sound hn
          obtain ⟨hfragment, htitle⟩ := shapes_of_tailAt? htail
          obtain ⟨stem, hstem⟩ := extension_suffix_of_reach? hn
          refine ⟨?_, ⟨c :: stem, List.cons_ne_nil _ _, ?_⟩, hfragment, htitle⟩
          · intro d hd
            rcases List.mem_cons.mp hd with rfl | hd
            · exact isPathChar_iff.mp hc
            · exact isPathChar_iff.mp (hpath d hd)
          · rw [List.cons_append]
            exact congrArg (c :: ·) hstem.symm
      · cases h
  · cases h

/-- And no link that begins there has a longer path. -/
theorem exists_at?_of_begins {t : Text} {l : Link} (h : l.Begins t) :
    ∃ l', at? t = some l' ∧ l.path.length ≤ l'.path.length := by
  obtain ⟨hl, more, rfl⟩ := h
  obtain ⟨stem, hne, hpath⟩ := hl.path_ending
  obtain ⟨c, stem, rfl⟩ := List.exists_cons_of_ne_nil hne
  have hchars : ∀ d ∈ c :: (stem ++ extension), isPathChar d = true := by
    intro d hd
    refine isPathChar_iff.mpr (hl.path_chars d ?_)
    rw [hpath]
    exact hd
  have htext : l.text ++ more
      = [']', '('] ++ c :: (stem ++ extension ++ (l.tail ++ ')' :: more)) := by
    rw [text, textWith, hpath, extension]
    simp
  have hends : (tailAt? (l.tail ++ ')' :: more)).isSome = true := by
    rw [tailAt?_of_grammatical hl more]
    rfl
  obtain ⟨n, hn, hle⟩ := reach?_complete
    (fun d hd => hchars d (List.mem_cons_of_mem c hd)) (List.suffix_append stem extension) hends
  obtain ⟨⟨fragment, title⟩, htail⟩ := Option.isSome_iff_exists.mp (reach?_sound hn).2
  refine ⟨⟨c :: (stem ++ extension ++ (l.tail ++ ')' :: more)).take n, fragment, title⟩, ?_, ?_⟩
  · rw [at?, Text.after?_eq_some_iff.mpr htext]
    simp only [hchars c List.mem_cons_self, if_true, hn, Option.bind_some, htail, Option.map_some]
  · have hlong := reach?_le hn
    rw [hpath, List.length_cons, List.length_take, Nat.min_eq_left hlong]
    exact Nat.succ_le_succ hle

theorem at?_eq_some_iff {t : Text} {l : Link} : at? t = some l ↔ l.Taken t := by
  have htaken : ∀ {l : Link}, at? t = some l → l.Taken t := by
    intro l h
    refine ⟨begins_of_at? h, fun l' hl' => ?_⟩
    obtain ⟨l'', h'', hle⟩ := exists_at?_of_begins hl'
    rw [h] at h''
    obtain rfl := Option.some.inj h''
    exact hle
  refine ⟨htaken, fun h => ?_⟩
  obtain ⟨l', hl', -⟩ := exists_at?_of_begins h.1
  rw [hl', (htaken hl').unique h]

theorem at?_eq_none_iff {t : Text} : at? t = none ↔ ∀ l : Link, ¬ l.Begins t := by
  constructor
  · intro h l hl
    obtain ⟨l', hl', -⟩ := exists_at?_of_begins hl
    rw [h] at hl'
    cases hl'
  · intro h
    cases hat : at? t with
    | none => rfl
    | some l => exact absurd (begins_of_at? hat) (h l)

/-! ## The links of a line -/

/-- The links that are taken from a text whose first byte is the byte `pos` of a line: always
    the one with the longest path at the first place where a link begins, and on behind it.
    Each has with it the bytes where its path starts and ends. -/
inductive Finds : Nat → Text → List (Link × Nat × Nat) → Prop where
  | none {pos : Nat} {t : Text} :
      (∀ (before behind : Text) (l : Link), t = before ++ behind → ¬ l.Begins behind) →
      Finds pos t []
  | next {pos : Nat} {skipped rest : Text} {l : Link} {found : List (Link × Nat × Nat)} :
      (∀ (before behind : Text) (l' : Link), skipped = before ++ behind → behind ≠ [] →
        ¬ l'.Begins (behind ++ (l.text ++ rest))) →
      l.Taken (l.text ++ rest) →
      Finds (pos + (skipped ++ l.text).byteSize) rest found →
      Finds pos (skipped ++ (l.text ++ rest))
        ((l, pos + (skipped ++ "](".toList).byteSize,
          pos + (skipped ++ "](".toList ++ l.path).byteSize) :: found)

/-- Where no link begins, the search goes on behind the character. -/
theorem Finds.cons {pos : Nat} {c : Char} {t : Text} {found : List (Link × Nat × Nat)}
    (hno : ∀ l : Link, ¬ l.Begins (c :: t)) (h : Finds (pos + c.utf8Size) t found) :
    Finds pos (c :: t) found := by
  generalize hpos : pos + c.utf8Size = pos' at h
  cases h with
  | none hnone =>
      refine Finds.none ?_
      intro before behind l heq
      cases before with
      | nil =>
          rw [List.nil_append] at heq
          rw [← heq]
          exact hno l
      | cons d before => exact hnone before behind l (List.cons.inj heq).2
  | @next _ skipped rest l found hfirst htaken hrest =>
      subst hpos
      have hshift : ∀ u : Text, pos + c.utf8Size + u.byteSize = pos + Text.byteSize (c :: u) := by
        intro u
        rw [Text.byteSize_cons, Nat.add_assoc]
      rw [hshift] at hrest
      rw [hshift, hshift]
      refine @Finds.next pos (c :: skipped) rest l found ?_ htaken hrest
      intro before behind l' heq hne
      cases before with
      | nil =>
          rw [List.nil_append] at heq
          rw [← heq]
          exact hno l'
      | cons d before => exact hfirst before behind l' (List.cons.inj heq).2 hne

/-- The segments of a line follow the rules. -/
theorem finds_spansFrom (pos : Nat) (t : Text) : Finds pos t (spansFrom pos (segments t)) := by
  induction t using segments.induct generalizing pos with
  | case1 =>
      rw [segments]
      refine Finds.none ?_
      intro before behind l heq hl
      obtain ⟨-, rfl⟩ := List.append_eq_nil_iff.mp heq.symm
      obtain ⟨-, more, hmore⟩ := hl
      have hpos := l.text_length_pos
      rw [(List.append_eq_nil_iff.mp hmore).1] at hpos
      exact absurd hpos (by decide)
  | case2 c rest l hat ih =>
      have hrest := (drop_text hat).2
      have htaken := at?_eq_some_iff.mp hat
      have hfinds := ih (pos + Text.byteSize ([] ++ l.text))
      rw [segments, hat]
      show Finds pos (c :: rest) ((l, pos + 2, pos + 2 + l.path.byteSize) :: _)
      rw [hrest] at htaken ⊢
      have hstop : pos + 2 + l.path.byteSize
          = pos + Text.byteSize ([] ++ "](".toList ++ l.path) := by
        rw [Text.byteSize_append, ← Nat.add_assoc]
        rfl
      rw [hstop]
      refine @Finds.next pos [] _ l _ ?_ htaken hfinds
      intro before behind l' heq hne
      exact absurd (List.append_eq_nil_iff.mp heq.symm).2 hne
  | case3 c rest hat ih =>
      rw [segments, hat]
      exact Finds.cons (at?_eq_none_iff.mp hat) (ih _)

theorem finds_spans (line : Text) : Finds 0 line (spans line) :=
  finds_spansFrom 0 line

/-- Two texts in one line, of which neither has a link beginning before its end, are the same. -/
theorem skipped_eq {skipped skipped' behind behind' : Text}
    (h : skipped ++ behind = skipped' ++ behind') (hlink : ∃ l : Link, l.Begins behind)
    (hlink' : ∃ l : Link, l.Begins behind')
    (hfirst : ∀ before rest (l : Link), skipped = before ++ rest → rest ≠ [] →
      ¬ l.Begins (rest ++ behind))
    (hfirst' : ∀ before rest (l : Link), skipped' = before ++ rest → rest ≠ [] →
      ¬ l.Begins (rest ++ behind')) : skipped = skipped' := by
  rcases List.append_eq_append_iff.mp h with ⟨more, hmore, hbehind⟩ | ⟨more, hmore, hbehind⟩
  · obtain ⟨l, hl⟩ := hlink
    cases more with
    | nil => rw [hmore, List.append_nil]
    | cons c more =>
        rw [hbehind] at hl
        exact absurd hl (hfirst' _ _ l hmore (List.cons_ne_nil _ _))
  · obtain ⟨l, hl⟩ := hlink'
    cases more with
    | nil => rw [hmore, List.append_nil]
    | cons c more =>
        rw [hbehind] at hl
        exact absurd hl (hfirst _ _ l hmore (List.cons_ne_nil _ _))

/-- The rules leave no choice. -/
theorem Finds.unique {pos : Nat} {t : Text} {found found' : List (Link × Nat × Nat)}
    (h : Finds pos t found) (h' : Finds pos t found') : found = found' := by
  induction h generalizing found' with
  | none hnone =>
      cases h' with
      | none _ => rfl
      | next _ htaken _ => exact absurd htaken.1 (hnone _ _ _ rfl)
  | @next pos skipped rest l found hfirst htaken _ ih =>
      generalize ht : skipped ++ (l.text ++ rest) = t at h'
      cases h' with
      | none hnone => exact absurd htaken.1 (hnone _ _ _ ht.symm)
      | @next _ skipped' rest' l' found' hfirst' htaken' hfinds' =>
          obtain rfl := skipped_eq ht ⟨l, htaken.1⟩ ⟨l', htaken'.1⟩ hfirst hfirst'
          have hbehind := List.append_cancel_left ht
          rw [← hbehind] at htaken'
          obtain rfl := htaken.unique htaken'
          obtain rfl := List.append_cancel_left hbehind
          rw [ih hfinds']

/-- Each link that is found stands in the text, and its fragment is what stands there. -/
theorem Finds.stands {pos : Nat} {t : Text} {found : List (Link × Nat × Nat)}
    (h : Finds pos t found) {l : Link} {start stop : Nat} (hmem : (l, start, stop) ∈ found) :
    ∃ before behind : Text, t = before ++ "](".toList ++ l.path ++ behind ∧
      start = pos + (before ++ "](".toList).byteSize ∧
      stop = pos + (before ++ "](".toList ++ l.path).byteSize ∧
      (l.fragment.isSome = true ↔ behind.head? = some '#') ∧
      ∀ fragment, l.fragment = some fragment → fragment <+: behind := by
  induction h with
  | none _ => exact absurd hmem List.not_mem_nil
  | @next pos skipped rest l' found _ htaken _ ih =>
      rcases List.mem_cons.mp hmem with heq | hmem
      · obtain ⟨rfl, hplace⟩ := Prod.mk.inj heq
        obtain ⟨rfl, rfl⟩ := Prod.mk.inj hplace
        have hbehind : l.tail ++ ')' :: rest
            = l.fragment.getD [] ++ (l.title.getD [] ++ ')' :: rest) := List.append_assoc _ _ _
        refine ⟨skipped, l.tail ++ ')' :: rest, ?_, rfl, rfl, ?_, ?_⟩
        · simp [text, textWith]
        · rw [hbehind]
          cases hfragment : l.fragment with
          | none =>
              refine ⟨fun hsome => absurd hsome Bool.false_ne_true, fun hhead => ?_⟩
              exact absurd rfl (head_behind_fragment htaken.1.1.title rest hhead).2
          | some fragment =>
              obtain ⟨cs, rfl, -⟩ := htaken.1.1.fragment fragment hfragment
              exact ⟨fun _ => rfl, fun _ => rfl⟩
        · intro fragment hfragment
          rw [hbehind, hfragment]
          exact List.prefix_append _ _
      · obtain ⟨before, behind, rfl, rfl, rfl, hfragment⟩ := ih hmem
        refine ⟨skipped ++ l'.text ++ before, behind, ?_, ?_, ?_, hfragment⟩
        · simp only [List.append_assoc]
        · simp only [Text.byteSize_append, Nat.add_assoc]
        · simp only [Text.byteSize_append, Nat.add_assoc]

/-- A line has links exactly if a part of it is one. -/
theorem spans_eq_nil_iff (line : Text) :
    spans line = [] ↔
      ¬ ∃ (before after : Text) (l : Link), l.Grammatical ∧ line = before ++ l.text ++ after := by
  have hpart : (∃ (before after : Text) (l : Link),
      l.Grammatical ∧ line = before ++ l.text ++ after) ↔
      ∃ (before behind : Text) (l : Link), line = before ++ behind ∧ l.Begins behind := by
    constructor
    · rintro ⟨before, after, l, hl, rfl⟩
      exact ⟨before, l.text ++ after, l, List.append_assoc _ _ _, hl, after, rfl⟩
    · rintro ⟨before, behind, l, rfl, hl, after, rfl⟩
      exact ⟨before, after, l, hl, (List.append_assoc _ _ _).symm⟩
  rw [hpart]
  have hfinds := finds_spans line
  constructor
  · rintro hnil ⟨before, behind, l, hline, hl⟩
    rw [hnil] at hfinds
    cases hfinds with
    | none hnone => exact hnone before behind l hline hl
  · intro hno
    have hnone : Finds 0 line [] := Finds.none fun before behind l hline hl =>
      hno ⟨before, behind, l, hline, hl⟩
    exact hfinds.unique hnone

end Link

end Literate
