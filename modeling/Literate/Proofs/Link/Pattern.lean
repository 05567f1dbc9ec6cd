import Literate.Proofs.Link.Grammar

/-! # Links by a pattern

    Links can as well be told by a pattern,

        ]( ( [^)#]+ .md ) ( #[-.\w]* )? ( \s+ "[^"]*" )? )

    whose parts in round brackets are kept, matched by going back: of a run the
    longest comes first, an optional part comes before its absence, and the
    first way that leads to the end is the match.  A line is searched from left
    to right, and on behind each match.  This says nothing of longest paths.

    * The ways of a pattern at a place, whatever their order, are the texts that
      it reads (`Pattern.mem_ways_iff`), and what the pattern of links reads is
      what the grammar calls a link (`Link.reads_pattern_iff`).
    * In the order of the ways the paths get shorter (`Link.pairwise_ways_pattern`),
      so the first way has the longest path.
    * Hence the pattern matches at a place what the reader of links takes there
      (`Link.head?_ways_of_at?`), and finds in a line what the reader finds
      (`Link.filterMap_search`). -/

namespace Literate

/-- The parts of a link that its pattern keeps. -/
inductive LinkPart where
  | path
  | fragment
  | title
  deriving DecidableEq

/-- A pattern of texts. -/
inductive Pattern where
  /-- One character of a kind. -/
  | one (p : Char → Bool)
  /-- A run of characters of a kind, as long as possible. -/
  | many (p : Char → Bool)
  /-- The text itself. -/
  | word (w : Text)
  /-- One pattern and then another. -/
  | both (a b : Pattern)
  /-- The pattern, if possible. -/
  | option (a : Pattern)
  /-- The pattern, with what it matches kept. -/
  | part (name : LinkPart) (a : Pattern)

namespace Pattern

/-- A match at the start of a text: what it takes, what follows, and the parts that are kept, each
    with the byte where it starts. -/
structure Match where
  text : Text
  rest : Text
  parts : List (LinkPart × Nat × Text)

/-- A match and another one directly behind it. -/
def Match.andThen (m m' : Match) : Match :=
  ⟨m.text ++ m'.text, m'.rest, m.parts ++ m'.parts⟩

/-- The runs of a kind at the start of a text, the longest first. -/
def runs (p : Char → Bool) : Text → List (Text × Text)
  | [] => [([], [])]
  | c :: t =>
    if p c then (runs p t).map (fun r => (c :: r.1, r.2)) ++ [([], c :: t)] else [([], c :: t)]

/-- The ways in which a pattern matches at the start of a text, in the order in which they are
    tried.  The text starts at the byte `pos`. -/
def ways : Pattern → Nat → Text → List Match
  | one _, _, [] => []
  | one p, _, c :: t => if p c then [⟨[c], t, []⟩] else []
  | many p, _, t => (runs p t).map fun r => ⟨r.1, r.2, []⟩
  | word w, _, t => ((Text.after? w t).map fun rest => ⟨w, rest, []⟩).toList
  | both a b, pos, t =>
    (a.ways pos t).flatMap fun m => (b.ways (pos + m.text.byteSize) m.rest).map m.andThen
  | option a, pos, t => a.ways pos t ++ [⟨[], t, []⟩]
  | part name a, pos, t =>
    (a.ways pos t).map fun m => { m with parts := (name, pos, m.text) :: m.parts }

/-- The matches in a text, the first way at the first place where there is one and on behind it, for
    a pattern that takes something wherever it matches. -/
def search (r : Pattern) (pos : Nat) : Text → List Match
  | [] => []
  | c :: t =>
    match (r.ways pos (c :: t)).head? with
    | some m => m :: r.search (pos + m.text.byteSize) (t.drop (m.text.length - 1))
    | none => r.search (pos + c.utf8Size) t
  termination_by t => t.length
  decreasing_by all_goals simp only [List.length_cons, List.length_drop]; omega

/-- What a pattern reads, without an order, and the parts that are kept of it. -/
def Reads : Pattern → Nat → Text → List (LinkPart × Nat × Text) → Prop
  | one p, _, w, parts => (∃ c, w = [c] ∧ p c = true) ∧ parts = []
  | many p, _, w, parts => (∀ c ∈ w, p c = true) ∧ parts = []
  | word u, _, w, parts => w = u ∧ parts = []
  | both a b, pos, w, parts => ∃ u v kept kept', w = u ++ v ∧ parts = kept ++ kept' ∧
      a.Reads pos u kept ∧ b.Reads (pos + u.byteSize) v kept'
  | option a, pos, w, parts => a.Reads pos w parts ∨ w = [] ∧ parts = []
  | part name a, pos, w, parts => ∃ kept, parts = (name, pos, w) :: kept ∧ a.Reads pos w kept

/-! ## Ways and texts -/

/-- A run is empty, or goes on behind a first character of its kind. -/
theorem mem_runs_cons {p : Char → Bool} {c : Char} {t run rest : Text} :
    (run, rest) ∈ runs p (c :: t) ↔
      run = [] ∧ rest = c :: t ∨
      p c = true ∧ ∃ run', run = c :: run' ∧ (run', rest) ∈ runs p t := by
  have hempty : (run, rest) ∈ [(([] : Text), c :: t)] ↔ run = [] ∧ rest = c :: t := by
    rw [List.mem_singleton, Prod.mk.injEq]
  have hlonger : (run, rest) ∈ (runs p t).map (fun r => (c :: r.1, r.2)) ↔
      ∃ run', run = c :: run' ∧ (run', rest) ∈ runs p t := by
    rw [List.mem_map]
    constructor
    · rintro ⟨⟨run', rest'⟩, hmem, heq⟩
      obtain ⟨rfl, rfl⟩ := Prod.mk.inj heq
      exact ⟨run', rfl, hmem⟩
    · rintro ⟨run', rfl, hmem⟩
      exact ⟨(run', rest), hmem, rfl⟩
  rw [runs]
  split
  · next hc => rw [List.mem_append, hempty, hlonger, or_comm, and_iff_right hc]
  · next hc => rw [hempty, or_iff_left fun h => hc h.1]

theorem mem_runs_iff {p : Char → Bool} {t run rest : Text} :
    (run, rest) ∈ runs p t ↔ t = run ++ rest ∧ ∀ c ∈ run, p c = true := by
  induction t generalizing run with
  | nil =>
      rw [runs, List.mem_singleton, Prod.mk.injEq]
      constructor
      · rintro ⟨rfl, rfl⟩
        exact ⟨rfl, fun c hc => nomatch hc⟩
      · rintro ⟨h, -⟩
        exact List.append_eq_nil_iff.mp h.symm
  | cons c t ih =>
      rw [mem_runs_cons]
      constructor
      · rintro (⟨rfl, rfl⟩ | ⟨hc, run, rfl, hmem⟩)
        · exact ⟨rfl, fun c hc => nomatch hc⟩
        · obtain ⟨rfl, hall⟩ := ih.mp hmem
          exact ⟨rfl, List.forall_mem_cons.mpr ⟨hc, hall⟩⟩
      · rintro ⟨heq, hall⟩
        cases run with
        | nil => exact Or.inl ⟨rfl, heq.symm⟩
        | cons d run =>
            obtain ⟨rfl, rfl⟩ := List.cons.inj heq
            obtain ⟨hc, hall⟩ := List.forall_mem_cons.mp hall
            exact Or.inr ⟨hc, run, rfl, ih.mpr ⟨rfl, hall⟩⟩

/-- The ways of a pattern are the texts that it reads at the start. -/
theorem mem_ways_iff {r : Pattern} {pos : Nat} {t : Text} {m : Match} :
    m ∈ r.ways pos t ↔ t = m.text ++ m.rest ∧ r.Reads pos m.text m.parts := by
  induction r generalizing pos t m with
  | one p =>
      obtain ⟨w, rest, parts⟩ := m
      cases t with
      | nil =>
          rw [ways, Reads]
          constructor
          · intro hmem
            exact nomatch hmem
          · rintro ⟨hnil, ⟨c, rfl, -⟩, -⟩
            exact nomatch hnil
      | cons c t =>
          rw [ways, Reads]
          constructor
          · intro hmem
            split at hmem
            · next hc =>
                obtain ⟨rfl, rfl, rfl⟩ := Match.mk.inj (List.mem_singleton.mp hmem)
                exact ⟨rfl, ⟨c, rfl, hc⟩, rfl⟩
            · exact nomatch hmem
          · rintro ⟨heq, ⟨d, rfl, hd⟩, rfl⟩
            obtain ⟨rfl, rfl⟩ := List.cons.inj heq
            rw [if_pos hd]
            exact List.mem_singleton.mpr rfl
  | many p =>
      obtain ⟨w, rest, parts⟩ := m
      rw [ways, Reads, List.mem_map]
      constructor
      · rintro ⟨⟨run, rest'⟩, hmem, heq⟩
        obtain ⟨rfl, rfl, rfl⟩ := Match.mk.inj heq
        obtain ⟨ht, hall⟩ := mem_runs_iff.mp hmem
        exact ⟨ht, hall, rfl⟩
      · rintro ⟨ht, hall, rfl⟩
        exact ⟨(w, rest), mem_runs_iff.mpr ⟨ht, hall⟩, rfl⟩
  | word u =>
      obtain ⟨w, rest, parts⟩ := m
      rw [ways, Reads, Option.mem_toList, Option.map_eq_some_iff]
      constructor
      · rintro ⟨rest', hrest, heq⟩
        obtain ⟨rfl, rfl, rfl⟩ := Match.mk.inj heq
        exact ⟨Text.after?_eq_some_iff.mp hrest, rfl, rfl⟩
      · rintro ⟨ht, rfl, rfl⟩
        exact ⟨rest, Text.after?_eq_some_iff.mpr ht, rfl⟩
  | both a b iha ihb =>
      obtain ⟨w, rest, parts⟩ := m
      rw [ways, Reads, List.mem_flatMap]
      constructor
      · rintro ⟨⟨u, between, kept⟩, ha, hmem⟩
        obtain ⟨⟨v, rest', kept'⟩, hb, heq⟩ := List.mem_map.mp hmem
        obtain ⟨rfl, rfl, rfl⟩ := Match.mk.inj heq
        obtain ⟨ht, hreads⟩ := iha.mp ha
        obtain ⟨hbetween, hreads'⟩ := ihb.mp hb
        dsimp only at ht hreads hbetween hreads'
        refine ⟨?_, u, v, kept, kept', rfl, rfl, hreads, hreads'⟩
        rw [ht, hbetween, List.append_assoc]
      · rintro ⟨ht, u, v, kept, kept', hw, hparts, hreads, hreads'⟩
        dsimp only at ht hw hparts
        subst hw hparts
        refine ⟨⟨u, v ++ rest, kept⟩, iha.mpr ⟨?_, hreads⟩, List.mem_map.mpr
          ⟨⟨v, rest, kept'⟩, ihb.mpr ⟨rfl, hreads'⟩, rfl⟩⟩
        rw [ht, List.append_assoc]
  | option a ih =>
      obtain ⟨w, rest, parts⟩ := m
      rw [ways, Reads, List.mem_append, ih, List.mem_singleton, Match.mk.injEq]
      constructor
      · rintro (⟨ht, hreads⟩ | ⟨rfl, rfl, rfl⟩)
        · exact ⟨ht, Or.inl hreads⟩
        · exact ⟨rfl, Or.inr ⟨rfl, rfl⟩⟩
      · rintro ⟨ht, hreads | ⟨hw, hparts⟩⟩
        · exact Or.inl ⟨ht, hreads⟩
        · dsimp only at ht hw hparts
          subst hw hparts
          exact Or.inr ⟨rfl, ht.symm, rfl⟩
  | part name a ih =>
      obtain ⟨w, rest, parts⟩ := m
      rw [ways, Reads, List.mem_map]
      constructor
      · rintro ⟨⟨w', rest', kept⟩, hmem, heq⟩
        obtain ⟨rfl, rfl, rfl⟩ := Match.mk.inj heq
        obtain ⟨ht, hreads⟩ := ih.mp hmem
        exact ⟨ht, kept, rfl, hreads⟩
      · rintro ⟨ht, kept, hparts, hreads⟩
        dsimp only at hparts
        subst hparts
        exact ⟨⟨w, rest, kept⟩, ih.mpr ⟨ht, hreads⟩, rfl⟩

/-- In the order of the runs each one is shorter than those before it. -/
theorem pairwise_runs (p : Char → Bool) (t : Text) :
    (runs p t).Pairwise fun r r' => r'.1.length < r.1.length := by
  induction t with
  | nil => exact List.pairwise_singleton _ _
  | cons c t ih =>
      rw [runs]
      split
      · refine List.pairwise_append.mpr ⟨?_, List.pairwise_singleton _ _, ?_⟩
        · refine List.pairwise_map.mpr (ih.imp ?_)
          intro r r' hlt
          exact Nat.succ_lt_succ hlt
        · intro r hr r' hr'
          obtain ⟨r, -, rfl⟩ := List.mem_map.mp hr
          obtain rfl := List.mem_singleton.mp hr'
          exact Nat.succ_pos _
      · exact List.pairwise_singleton _ _

/-- What a match has kept under a name. -/
def Match.part? (m : Match) (name : LinkPart) : Option (Nat × Text) :=
  (m.parts.find? fun part => part.1 == name).map Prod.snd

/-- An optional part that is kept is a text of its kind, or absent. -/
theorem reads_option_part_iff {name : LinkPart} {a : Pattern} {kind : Text → Prop}
    (h : ∀ pos w parts, (part name a).Reads pos w parts ↔ kind w ∧ parts = [(name, pos, w)])
    (pos : Nat) (w : Text) (parts : List (LinkPart × Nat × Text)) :
    (option (part name a)).Reads pos w parts ↔
      ∃ found : Option Text, (∀ t, found = some t → kind t) ∧ w = found.getD [] ∧
        parts = (found.map fun t => (name, pos, t)).toList := by
  rw [Reads, h]
  constructor
  · rintro (⟨hkind, rfl⟩ | ⟨rfl, rfl⟩)
    · refine ⟨some w, ?_, rfl, rfl⟩
      rintro t ⟨⟩
      exact hkind
    · exact ⟨none, fun t ht => (nomatch ht), rfl, rfl⟩
  · rintro ⟨found, hkind, rfl, rfl⟩
    cases found with
    | none => exact Or.inr ⟨rfl, rfl⟩
    | some t => exact Or.inl ⟨hkind t rfl, rfl⟩

/-- The ways of two patterns are in an order if those of the first are, whatever the second adds,
    and those of the second behind each of the first. -/
theorem pairwise_ways_both {R : Match → Match → Prop} {a b : Pattern} {pos : Nat} {t : Text}
    (hfirst : (a.ways pos t).Pairwise fun m m' =>
      ∀ n ∈ b.ways (pos + m.text.byteSize) m.rest,
      ∀ n' ∈ b.ways (pos + m'.text.byteSize) m'.rest, R (m.andThen n) (m'.andThen n'))
    (hsecond : ∀ m ∈ a.ways pos t, (b.ways (pos + m.text.byteSize) m.rest).Pairwise fun n n' =>
      R (m.andThen n) (m.andThen n')) :
    ((both a b).ways pos t).Pairwise R := by
  rw [ways]
  refine List.pairwise_flatMap.mpr ⟨fun m hm => List.pairwise_map.mpr (hsecond m hm), ?_⟩
  refine hfirst.imp ?_
  intro m m' hR x hx y hy
  obtain ⟨n, hn, rfl⟩ := List.mem_map.mp hx
  obtain ⟨n', hn', rfl⟩ := List.mem_map.mp hy
  exact hR n hn n' hn'

theorem pairwise_ways_word {R : Match → Match → Prop} (w : Text) (pos : Nat) (t : Text) :
    ((word w).ways pos t).Pairwise R := by
  rw [ways]
  cases (Text.after? w t).map fun rest => (⟨w, rest, []⟩ : Match) with
  | none => exact List.Pairwise.nil
  | some m => exact List.pairwise_singleton R m

theorem pairwise_ways_one {R : Match → Match → Prop} (p : Char → Bool) (pos : Nat) (t : Text) :
    ((one p).ways pos t).Pairwise R := by
  cases t with
  | nil => exact List.Pairwise.nil
  | cons c t =>
      rw [ways]
      split
      · exact List.pairwise_singleton R _
      · exact List.Pairwise.nil

end Pattern

namespace Link

open Pattern

/-! ## The pattern of links -/

/-- A path. -/
def pathPattern : Pattern :=
  .part .path (.both (.one isPathChar) (.both (.many isPathChar) (.word ".md".toList)))

/-- A fragment. -/
def fragmentPattern : Pattern :=
  .part .fragment (.both (.word ['#']) (.many isFragmentChar))

/-- A title. -/
def titlePattern : Pattern :=
  .part .title (.both (.one isBlank) (.both (.many isBlank)
    (.both (.word ['"']) (.both (.many (· != '"')) (.word ['"'])))))

/-- What follows a path. -/
def tailPattern : Pattern :=
  .both (.option fragmentPattern) (.both (.option titlePattern) (.word [')']))

/-- A link. -/
def pattern : Pattern :=
  .both (.word [']', '(']) (.both pathPattern tailPattern)

/-- The parts that are kept of a link that starts at the byte `pos`. -/
def parts (l : Link) (pos : Nat) : List (LinkPart × Nat × Text) :=
  (.path, pos + 2, l.path) ::
    ((l.fragment.map fun t => (.fragment, pos + 2 + l.path.byteSize, t)).toList
      ++ (l.title.map fun t =>
        (.title, pos + 2 + l.path.byteSize + (l.fragment.getD []).byteSize, t)).toList)

/-- The link of a match, with the bytes where its path starts and ends. -/
def ofMatch? (m : Match) : Option (Link × Nat × Nat) :=
  (m.part? .path).map fun path =>
    (⟨path.2, (m.part? .fragment).map Prod.snd, (m.part? .title).map Prod.snd⟩,
      path.1, path.1 + path.2.byteSize)

theorem ofMatch?_parts (l : Link) (pos : Nat) (w rest : Text) :
    ofMatch? ⟨w, rest, l.parts pos⟩ = some (l, pos + 2, pos + 2 + l.path.byteSize) := by
  obtain ⟨path, fragment, title⟩ := l
  cases fragment <;> cases title <;> rfl

/-! ## What the pattern reads -/

theorem reads_pathPattern_iff (pos : Nat) (w : Text) (parts : List (LinkPart × Nat × Text)) :
    pathPattern.Reads pos w parts ↔
      ((∀ c ∈ w, c ≠ ')' ∧ c ≠ '#') ∧ ∃ stem : Text, stem ≠ [] ∧ w = stem ++ ".md".toList) ∧
        parts = [(.path, pos, w)] := by
  simp only [← isPathChar_iff]
  constructor
  · rintro ⟨kept, rfl, u, v, kept', kept'', rfl, rfl, ⟨⟨c, rfl, hc⟩, rfl⟩,
      run, ending, kept', kept'', rfl, rfl, ⟨hrun, rfl⟩, rfl, rfl⟩
    refine ⟨⟨?_, c :: run, List.cons_ne_nil _ _, rfl⟩, rfl⟩
    intro d hd
    rw [List.singleton_append] at hd
    rcases List.mem_cons.mp hd with rfl | hd
    · exact hc
    · rcases List.mem_append.mp hd with hd | hd
      · exact hrun d hd
      · exact isPathChar_of_mem_extension d hd
  · rintro ⟨⟨hchars, stem, hne, rfl⟩, rfl⟩
    obtain ⟨c, run, rfl⟩ := List.exists_cons_of_ne_nil hne
    refine ⟨[], rfl, [c], run ++ ".md".toList, [], [], rfl, rfl,
      ⟨⟨c, rfl, hchars c List.mem_cons_self⟩, rfl⟩, run, ".md".toList, [], [], rfl, rfl, ⟨?_, rfl⟩,
      rfl, rfl⟩
    intro d hd
    exact hchars d (List.mem_cons_of_mem c (List.mem_append_left _ hd))

theorem reads_fragmentPattern_iff (pos : Nat) (w : Text) (parts : List (LinkPart × Nat × Text)) :
    fragmentPattern.Reads pos w parts ↔ IsFragment w ∧ parts = [(.fragment, pos, w)] := by
  simp only [IsFragment, ← isFragmentChar_iff]
  constructor
  · rintro ⟨kept, rfl, u, cs, kept', kept'', rfl, rfl, ⟨rfl, rfl⟩, hcs, rfl⟩
    exact ⟨⟨cs, rfl, hcs⟩, rfl⟩
  · rintro ⟨⟨cs, rfl, hcs⟩, rfl⟩
    exact ⟨[], rfl, ['#'], cs, [], [], rfl, rfl, ⟨rfl, rfl⟩, hcs, rfl⟩

theorem reads_titlePattern_iff (pos : Nat) (w : Text) (parts : List (LinkPart × Nat × Text)) :
    titlePattern.Reads pos w parts ↔ IsTitle w ∧ parts = [(.title, pos, w)] := by
  constructor
  · rintro ⟨kept, rfl, u, v, kept', kept'', rfl, rfl, ⟨⟨c, rfl, hc⟩, rfl⟩, blanks, v, kept', kept'',
      rfl, rfl, ⟨hblanks, rfl⟩, u, v, kept', kept'', rfl, rfl, ⟨rfl, rfl⟩, inner, v, kept', kept'',
      rfl, rfl, ⟨hinner, rfl⟩, rfl, rfl⟩
    refine ⟨⟨c :: blanks, inner, ?_, List.cons_ne_nil _ _,
      List.forall_mem_cons.mpr ⟨hc, hblanks⟩, fun hmem => ?_⟩, rfl⟩
    · simp only [List.cons_append, List.append_assoc, List.nil_append]
    · exact absurd rfl (bne_iff_ne.mp (hinner '"' hmem))
  · rintro ⟨⟨blanks, inner, rfl, hne, hblanks, hinner⟩, rfl⟩
    obtain ⟨c, blanks, rfl⟩ := List.exists_cons_of_ne_nil hne
    obtain ⟨hc, hblanks⟩ := List.forall_mem_cons.mp hblanks
    refine ⟨[], rfl, [c], blanks ++ '"' :: (inner ++ ['"']), [], [], ?_, rfl, ⟨⟨c, rfl, hc⟩, rfl⟩,
      blanks, '"' :: (inner ++ ['"']), [], [], rfl, rfl, ⟨hblanks, rfl⟩,
      ['"'], inner ++ ['"'], [], [], rfl, rfl, ⟨rfl, rfl⟩,
      inner, ['"'], [], [], rfl, rfl, ⟨fun d hd => ?_, rfl⟩, rfl, rfl⟩
    · simp only [List.cons_append, List.append_assoc, List.nil_append]
    · exact bne_iff_ne.mpr fun heq => hinner (heq ▸ hd)

/-- The pattern reads the links of the grammar. -/
theorem reads_pattern_iff (pos : Nat) (w : Text) (kept : List (LinkPart × Nat × Text)) :
    pattern.Reads pos w kept ↔ ∃ l : Link, l.Grammatical ∧ w = l.text ∧ kept = l.parts pos := by
  constructor
  · rintro ⟨u, v, kept', kept'', rfl, rfl, ⟨rfl, rfl⟩, path, v, kept', kept'', rfl, rfl, hpath,
      u, v, kept', kept'', rfl, rfl, hfragment, u', v, kept', kept'', rfl, rfl, htitle, rfl, rfl⟩
    obtain ⟨⟨hchars, hending⟩, rfl⟩ := (reads_pathPattern_iff _ _ _).mp hpath
    obtain ⟨fragment, hshape, rfl, rfl⟩ :=
      (reads_option_part_iff reads_fragmentPattern_iff _ _ _).mp hfragment
    obtain ⟨title, hshape', rfl, rfl⟩ :=
      (reads_option_part_iff reads_titlePattern_iff _ _ _).mp htitle
    refine ⟨⟨path, fragment, title⟩, ⟨hchars, hending, hshape, hshape'⟩, ?_, ?_⟩
    · simp only [text, textWith, tail, List.append_assoc]
    · rw [List.append_nil]
      rfl
  · rintro ⟨l, hl, rfl, rfl⟩
    refine ⟨[']', '('], l.path ++ (l.tail ++ [')']), [], l.parts pos, ?_, rfl, ⟨rfl, rfl⟩,
      l.path, l.tail ++ [')'], [(.path, pos + 2, l.path)], _, rfl, rfl,
      (reads_pathPattern_iff _ _ _).mpr ⟨⟨hl.path_chars, hl.path_ending⟩, rfl⟩,
      l.fragment.getD [], l.title.getD [] ++ [')'], _, _, ?_, rfl,
      (reads_option_part_iff reads_fragmentPattern_iff _ _ _).mpr
        ⟨l.fragment, hl.fragment, rfl, rfl⟩,
      l.title.getD [], [')'], _, [], rfl, (List.append_nil _).symm,
      (reads_option_part_iff reads_titlePattern_iff _ _ _).mpr ⟨l.title, hl.title, rfl, rfl⟩,
      rfl, rfl⟩
    · simp only [text, textWith, List.append_assoc]
    · rw [tail, List.append_assoc]

/-! ## The first way -/

/-- The path that a match has kept first is at least as long as that of another. -/
def PathsFall (m m' : Match) : Prop :=
  ∀ start path more start' path' more', m.parts = (.path, start, path) :: more →
    m'.parts = (.path, start', path') :: more' → path'.length ≤ path.length

theorem pairwise_ways_pathPattern (pos : Nat) (t : Text) :
    (pathPattern.ways pos t).Pairwise fun m m' => m'.text.length ≤ m.text.length := by
  rw [pathPattern, ways]
  refine List.pairwise_map.mpr (pairwise_ways_both (pairwise_ways_one _ _ _) fun m _ =>
    pairwise_ways_both ?_ fun _ _ => pairwise_ways_word _ _ _)
  rw [ways]
  refine List.pairwise_map.mpr ((pairwise_runs _ _).imp ?_)
  intro run run' hlt n hn n' hn'
  obtain ⟨-, hword, -⟩ := mem_ways_iff.mp hn
  obtain ⟨-, hword', -⟩ := mem_ways_iff.mp hn'
  simp only [Match.andThen, hword, hword', List.length_append]
  omega

/-- In the order of its ways the pattern keeps shorter and shorter paths. -/
theorem pairwise_ways_pattern (pos : Nat) (t : Text) :
    (pattern.ways pos t).Pairwise PathsFall := by
  -- behind the brackets a way begins with the path that it keeps
  have hkept : ∀ {m n : Match} {pos : Nat} {t : Text} {start : Nat} {path : Text}
      {more : List (LinkPart × Nat × Text)}, m ∈ pathPattern.ways pos t →
      (m.andThen n).parts = (.path, start, path) :: more → path = m.text := by
    intro m n pos t start path more hm hparts
    obtain ⟨-, hkept⟩ := (reads_pathPattern_iff _ _ _).mp (mem_ways_iff.mp hm).2
    rw [Match.andThen, hkept] at hparts
    exact (Prod.mk.inj (Prod.mk.inj (List.cons.inj hparts).1).2).2.symm
  refine pairwise_ways_both (pairwise_ways_word _ _ _) fun m hm => ?_
  obtain ⟨-, -, hnone⟩ := mem_ways_iff.mp hm
  have hsame : ∀ {n n' : Match}, PathsFall n n' → PathsFall (m.andThen n) (m.andThen n') := by
    intro n n' hfall start path more start' path' more' hparts hparts'
    rw [Match.andThen, hnone] at hparts hparts'
    exact hfall start path more start' path' more' hparts hparts'
  refine List.Pairwise.imp hsame (pairwise_ways_both ?_ fun m hm => ?_)
  · refine List.Pairwise.imp_of_mem ?_ (pairwise_ways_pathPattern _ _)
    intro m m' hm hm' hle n _ n' _ start path more start' path' more' hparts hparts'
    rw [hkept hm hparts, hkept hm' hparts']
    exact hle
  · refine List.pairwise_of_forall ?_
    intro n n' start path more start' path' more' hparts hparts'
    exact Nat.le_of_eq (by rw [hkept hm hparts, hkept hm hparts'])

/-- The first way of the pattern is the link that the reader takes. -/
theorem head?_ways_of_at? {t : Text} {l : Link} (h : at? t = some l) (pos : Nat) :
    ∃ rest, (pattern.ways pos t).head? = some ⟨l.text, rest, l.parts pos⟩ := by
  have htaken := at?_eq_some_iff.mp h
  obtain ⟨hl, rest, hrest⟩ := htaken.1
  have hmem : ⟨l.text, rest, l.parts pos⟩ ∈ pattern.ways pos t :=
    mem_ways_iff.mpr ⟨hrest.symm, (reads_pattern_iff _ _ _).mpr ⟨l, hl, rfl, rfl⟩⟩
  have hpairwise := pairwise_ways_pattern pos t
  cases hways : pattern.ways pos t with
  | nil =>
      rw [hways] at hmem
      exact nomatch hmem
  | cons m ms =>
      obtain ⟨ht, hreads⟩ := mem_ways_iff.mp (hways ▸ List.mem_cons_self : m ∈ pattern.ways pos t)
      obtain ⟨l', hl', htext, hparts⟩ := (reads_pattern_iff _ _ _).mp hreads
      have hbegins : l'.Begins t := ⟨hl', m.rest, by rw [← htext, ht]⟩
      have hlong : l.path.length ≤ l'.path.length := by
        rw [hways] at hmem hpairwise
        rcases List.mem_cons.mp hmem with heq | hmem
        · have hsame := congrArg Match.parts heq
          rw [hparts] at hsame
          have hpath := (Prod.mk.inj (Prod.mk.inj (List.cons.inj hsame).1).2).2
          exact Nat.le_of_eq (congrArg List.length hpath)
        · exact (List.pairwise_cons.mp hpairwise).1 _ hmem _ _ _ _ _ _ hparts rfl
      obtain rfl := hbegins.eq_of_length_eq htaken.1
        (Nat.le_antisymm (htaken.2 l' hbegins) hlong)
      refine ⟨m.rest, congrArg some ?_⟩
      rw [← htext, ← hparts]

/-- Where the reader takes nothing the pattern does not match. -/
theorem head?_ways_of_at?_eq_none {t : Text} (h : at? t = none) (pos : Nat) :
    (pattern.ways pos t).head? = none := by
  rw [List.head?_eq_none_iff, List.eq_nil_iff_forall_not_mem]
  intro m hm
  obtain ⟨ht, hreads⟩ := mem_ways_iff.mp hm
  obtain ⟨l, hl, htext, -⟩ := (reads_pattern_iff _ _ _).mp hreads
  exact at?_eq_none_iff.mp h l ⟨hl, m.rest, by rw [← htext, ht]⟩

/-- The pattern finds in a line what the reader finds. -/
theorem filterMap_search (pos : Nat) (t : Text) :
    (pattern.search pos t).filterMap ofMatch? = spansFrom pos (segments t) := by
  induction t using segments.induct generalizing pos with
  | case1 =>
      rw [search, segments]
      rfl
  | case2 c rest l hat ih =>
      obtain ⟨behind, hhead⟩ := head?_ways_of_at? hat pos
      rw [search, hhead, segments, hat]
      dsimp only
      rw [List.filterMap_cons, ofMatch?_parts, ih]
      rfl
  | case3 c rest hat ih =>
      rw [search, head?_ways_of_at?_eq_none hat, segments, hat]
      exact ih _

/-! ## The links of a line -/

/-- **The links of a line are those of the grammar.**  They are the links of the matches of the
    pattern of links, searched for from left to right with the first way at each place.  They
    follow the rules of the grammar, which leave no choice: always the link with the longest path
    at the first place behind the one before where a link begins.  There is none if and only if no
    part of the line is a link, and a link has a fragment if and only if the sign of one stands
    behind its path, and then that one. -/
theorem links_are_those_of_the_grammar (line : Text) :
    spans line = (pattern.search 0 line).filterMap ofMatch? ∧
    (∀ found, Finds 0 line found ↔ found = spans line) ∧
    (spans line = [] ↔
      ¬ ∃ (before after : Text) (l : Link), l.Grammatical ∧ line = before ++ l.text ++ after) ∧
    ∀ l start stop, (l, start, stop) ∈ spans line →
      ∃ before behind : Text, line = before ++ "](".toList ++ l.path ++ behind ∧
        start = (before ++ "](".toList).byteSize ∧
        stop = (before ++ "](".toList ++ l.path).byteSize ∧
        (l.fragment.isSome = true ↔ behind.head? = some '#') ∧
        ∀ fragment, l.fragment = some fragment → fragment <+: behind := by
  refine ⟨(filterMap_search 0 line).symm, ?_, spans_eq_nil_iff line, ?_⟩
  · intro found
    constructor
    · intro hfinds
      exact hfinds.unique (finds_spans line)
    · rintro rfl
      exact finds_spans line
  · intro l start stop hmem
    obtain ⟨before, behind, hline, hstart, hstop, hfragment⟩ := (finds_spans line).stands hmem
    rw [Nat.zero_add] at hstart hstop
    exact ⟨before, behind, hline, hstart, hstop, hfragment⟩

/-- A path with the brackets of a link in it, before a title that ends like a path, and a link
    with all its parts. -/
def crowdedLine : Text :=
  "[é](c](a.md \"b.md\") [y](d.md#e-1 \"t\")".toList

theorem links_of_crowded_line :
    Finds 0 crowdedLine
        [(⟨"c](a.md".toList, none, some " \"b.md\"".toList⟩, 5, 12),
          (⟨"d.md".toList, some "#e-1".toList, some " \"t\"".toList⟩, 25, 29)] ∧
      ∃ before behind : Text,
        crowdedLine = before ++ "](".toList ++ "d.md".toList ++ behind ∧
        behind.head? = some '#' := by
  obtain ⟨-, hfinds, -, hstands⟩ := links_are_those_of_the_grammar crowdedLine
  refine ⟨(hfinds _).mpr (by decide +kernel), ?_⟩
  obtain ⟨before, behind, hline, -, -, hfragment, -⟩ :=
    hstands ⟨"d.md".toList, some "#e-1".toList, some " \"t\"".toList⟩ 25 29 (by decide +kernel)
  exact ⟨before, behind, hline, hfragment.mp rfl⟩

end Link

end Literate
