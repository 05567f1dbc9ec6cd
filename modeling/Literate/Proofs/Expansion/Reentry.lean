import Literate.Build.Run
import Literate.Proofs.Build.Writes
import Literate.Proofs.Expansion.Trace

/-! # Meeting an open chunk again

    Cycles are looked for twice: by the check of a lattice, which grows paths
    before anything is written, and by an expansion, which fails when it meets a
    chunk that is still open.  Here the table need not have passed any check.

    * An expansion is given by rules (`Unfolds`) that hand the open path on from
      line to line, as it was left.  Every expansion ends by these rules
      (`unfolds_expand`), because a chunk that is entered leaves fewer names to
      enter, and in one way only (`Unfolds.unique`).
    * When it succeeds it has closed every chunk it entered
      (`Unfolds.path_eq`), and nothing it leads to is open or on a cycle
      (`Unfolds.clear`).
    * When it fails, the chunks it entered are a way along references to a chunk
      that is open or on the way (`Unfolds.reentry`).  From a path on which no
      chunk is open that is a cycle (`Reentry.isCycle`). -/

namespace Literate

open Relation

/-- What an expansion has before it: a chunk to enter, or the lines left of one. -/
inductive Ahead where
  | chunk (name : ChunkName)
  | lines (ls : List ChunkLine)

/-- The names that are entered from there. -/
def Ahead.names : Ahead → List ChunkName
  | .chunk name => [name]
  | .lines ls => ls.filterMap fun l => l.reference?.map Reference.name

theorem Ahead.names_code {line : ChunkLine} (h : line.reference? = none) (rest : List ChunkLine) :
    (Ahead.lines (line :: rest)).names = (Ahead.lines rest).names := by
  rw [names, List.filterMap_cons, h]
  rfl

theorem Ahead.names_reference {line : ChunkLine} {ref : Reference}
    (h : line.reference? = some ref) (rest : List ChunkLine) :
    (Ahead.lines (line :: rest)).names = ref.name :: (Ahead.lines rest).names := by
  rw [names, List.filterMap_cons, h]
  rfl

namespace ChunkTable

variable {t : ChunkTable} {d : Directive}

/-- What an expansion gives out, and how it ends.  The path is the one that the lines before
    have left. -/
inductive Unfolds (t : ChunkTable) (d : Directive) :
    Ahead → Text → OpenPath → List Text → Ending → Prop where
  | reentered {name : ChunkName} {indent : Text} {path : OpenPath} :
      name ∈ path.names →
      Unfolds t d (.chunk name) indent path [] ⟨path, some (Lattice.closing path.names name)⟩
  | missing {name : ChunkName} {indent : Text} {path : OpenPath} :
      name ∉ path.names → t.get? name = none →
      Unfolds t d (.chunk name) indent path [] ⟨OpenPath.pop ⟨path.names ++ [name]⟩, none⟩
  | chunk {name : ChunkName} {indent : Text} {path inner : OpenPath} {chunk : Chunk}
      {out : List Text} :
      name ∉ path.names → t.get? name = some chunk →
      Unfolds t d (.lines chunk.lines) indent ⟨path.names ++ [name]⟩ out ⟨inner, none⟩ →
      Unfolds t d (.chunk name) indent path out ⟨inner.pop, none⟩
  | chunkFails {name : ChunkName} {indent : Text} {path inner : OpenPath} {chunk : Chunk}
      {out : List Text} {cycle : List ChunkName} :
      name ∉ path.names → t.get? name = some chunk →
      Unfolds t d (.lines chunk.lines) indent ⟨path.names ++ [name]⟩ out ⟨inner, some cycle⟩ →
      Unfolds t d (.chunk name) indent path out ⟨inner, some cycle⟩
  | nil {indent : Text} {path : OpenPath} : Unfolds t d (.lines []) indent path [] ⟨path, none⟩
  | code {line : ChunkLine} {rest : List ChunkLine} {indent : Text} {path : OpenPath}
      {out : List Text} {e : Ending} :
      line.reference? = none → Unfolds t d (.lines rest) indent path out e →
      Unfolds t d (.lines (line :: rest)) indent path (line.pieces d indent ++ out) e
  | reference {line : ChunkLine} {rest : List ChunkLine} {indent : Text} {path left : OpenPath}
      {ref : Reference} {inner out : List Text} {e : Ending} :
      line.reference? = some ref →
      Unfolds t d (.chunk ref.name) (ref.indent ++ indent) path inner ⟨left, none⟩ →
      Unfolds t d (.lines rest) indent left out e →
      Unfolds t d (.lines (line :: rest)) indent path (inner ++ out) e
  | referenceFails {line : ChunkLine} {rest : List ChunkLine} {indent : Text}
      {path left : OpenPath} {ref : Reference} {inner : List Text} {cycle : List ChunkName} :
      line.reference? = some ref →
      Unfolds t d (.chunk ref.name) (ref.indent ++ indent) path inner ⟨left, some cycle⟩ →
      Unfolds t d (.lines (line :: rest)) indent path inner ⟨left, some cycle⟩

/-! ## Every expansion ends -/

/-- An expansion that succeeds leaves the path as it was. -/
theorem Unfolds.path_eq {ahead : Ahead} {indent : Text} {path : OpenPath} {out : List Text}
    {e : Ending} (h : Unfolds t d ahead indent path out e) : e.cycle = none → e.path = path := by
  induction h with
  | reentered _ => exact fun hnone => nomatch hnone
  | missing _ _ => exact fun _ => OpenPath.pop_append _ _
  | chunk _ _ _ ih =>
      intro _
      exact (congrArg OpenPath.pop (ih rfl)).trans (OpenPath.pop_append _ _)
  | chunkFails _ _ _ _ => exact fun hnone => nomatch hnone
  | nil => exact fun _ => rfl
  | code _ _ ih => exact ih
  | reference _ _ _ ihin ih => exact fun hnone => (ih hnone).trans (ihin rfl)
  | referenceFails _ _ _ => exact fun hnone => nomatch hnone

theorem expand_of_mem {name : ChunkName} {path : OpenPath} (hn : name ∈ path.names)
    (indent : Text) :
    t.expand d name indent path
      = .done ⟨path, some (Lattice.closing path.names name)⟩ := by
  have hpush : path.push name = .error (Lattice.closing path.names name) := by
    rw [OpenPath.push, if_pos (List.contains_iff_mem.2 hn)]
  rw [expand]
  generalize path.push name = entered at hpush ⊢
  subst hpush
  rfl

theorem expand_of_missing {name : ChunkName} {path : OpenPath} (hn : name ∉ path.names)
    (hc : t.get? name = none) (indent : Text) :
    t.expand d name indent path = .done ⟨OpenPath.pop ⟨path.names ++ [name]⟩, none⟩ := by
  have hpush : path.push name = .ok ⟨path.names ++ [name]⟩ :=
    OpenPath.push_eq_ok_iff.2 ⟨hn, rfl⟩
  rw [expand]
  generalize path.push name = entered at hpush ⊢
  generalize t.get? name = found at hc ⊢
  subst hpush hc
  rfl

/-- Lines end by the rules if the chunks that they enter do. -/
theorem unfolds_expandLines {path : OpenPath}
    (h : ∀ name indent, Unfolds t d (.chunk name) indent path
      (t.expand d name indent path).list (t.expand d name indent path).value)
    (lines : List ChunkLine) (indent : Text) :
    Unfolds t d (.lines lines) indent path (t.expandLines d lines indent path).list
      (t.expandLines d lines indent path).value := by
  induction lines with
  | nil =>
      rw [expandLines_nil]
      exact Unfolds.nil
  | cons line rest ih =>
      cases hr : line.reference? with
      | none =>
          rw [expandLines_code hr, Pieces.list_prepend, Pieces.value_prepend]
          exact Unfolds.code hr ih
      | some ref =>
          have hin := h ref.name (ref.indent ++ indent)
          rw [expandLines_reference hr, Pieces.list_andThen, Pieces.value_andThen]
          cases he : (t.expand d ref.name (ref.indent ++ indent) path).value with
          | mk left cycle =>
              rw [he] at hin
              cases cycle with
              | none =>
                  -- the rest starts from the path that the reference has left
                  obtain rfl : left = path := hin.path_eq rfl
                  exact Unfolds.reference hr hin ih
              | some cycle =>
                  have hfails : Unfolds t d (.lines (line :: rest)) indent path _ _ :=
                    Unfolds.referenceFails hr hin
                  rw [← List.append_nil (t.expand d ref.name (ref.indent ++ indent) path).list]
                    at hfails
                  exact hfails

/-- Every expansion ends by the rules. -/
theorem unfolds_expand (name : ChunkName) (indent : Text) (path : OpenPath) :
    Unfolds t d (.chunk name) indent path (t.expand d name indent path).list
      (t.expand d name indent path).value := by
  -- on the number of names that can still be entered
  induction hcount : t.remaining path using Nat.strong_induction_on generalizing name indent path with
  | _ count ih =>
      by_cases hn : name ∈ path.names
      · rw [expand_of_mem hn]
        exact Unfolds.reentered hn
      · cases hc : t.get? name with
        | none =>
            rw [expand_of_missing hn hc]
            exact Unfolds.missing hn hc
        | some chunk =>
            have hless : t.remaining ⟨path.names ++ [name]⟩ < count :=
              hcount ▸ remaining_lt (OpenPath.push_eq_ok_iff.2 ⟨hn, rfl⟩) hc
            have hlines := unfolds_expandLines (t := t) (d := d)
              (fun name' indent' => ih _ hless name' indent' ⟨path.names ++ [name]⟩ rfl)
              chunk.lines indent
            rw [expand_of_not_mem hn hc, Pieces.list_andThen, Pieces.value_andThen,
              Pieces.list, List.append_nil]
            cases he : (t.expandLines d chunk.lines indent ⟨path.names ++ [name]⟩).value with
            | mk inner cycle =>
                rw [he] at hlines
                cases cycle with
                | none => exact Unfolds.chunk hn hc hlines
                | some cycle => exact Unfolds.chunkFails hn hc hlines

/-- The rules leave no choice. -/
theorem Unfolds.unique {ahead : Ahead} {indent : Text} {path : OpenPath} {out out' : List Text}
    {e e' : Ending} (h : Unfolds t d ahead indent path out e)
    (h' : Unfolds t d ahead indent path out' e') : out = out' ∧ e = e' := by
  induction h generalizing out' e' with
  | reentered hn =>
      cases h' with
      | reentered => exact ⟨rfl, rfl⟩
      | missing hn' | chunk hn' | chunkFails hn' => exact absurd hn hn'
  | missing hn hc =>
      cases h' with
      | reentered hn' => exact absurd hn' hn
      | missing => exact ⟨rfl, rfl⟩
      | chunk _ hc' | chunkFails _ hc' => rw [hc] at hc'; exact nomatch hc'
  | chunk hn hc _ ih =>
      cases h' with
      | reentered hn' => exact absurd hn' hn
      | missing _ hc' => rw [hc] at hc'; exact nomatch hc'
      | chunk _ hc' hlines' =>
          rw [hc] at hc'
          obtain rfl := Option.some.inj hc'
          obtain ⟨rfl, he⟩ := ih hlines'
          cases he
          exact ⟨rfl, rfl⟩
      | chunkFails _ hc' hlines' =>
          rw [hc] at hc'
          obtain rfl := Option.some.inj hc'
          cases (ih hlines').2
  | chunkFails hn hc _ ih =>
      cases h' with
      | reentered hn' => exact absurd hn' hn
      | missing _ hc' => rw [hc] at hc'; exact nomatch hc'
      | chunk _ hc' hlines' =>
          rw [hc] at hc'
          obtain rfl := Option.some.inj hc'
          cases (ih hlines').2
      | chunkFails _ hc' hlines' =>
          rw [hc] at hc'
          obtain rfl := Option.some.inj hc'
          exact ih hlines'
  | nil =>
      cases h' with
      | nil => exact ⟨rfl, rfl⟩
  | code hr _ ih =>
      cases h' with
      | code _ hrest' =>
          obtain ⟨rfl, rfl⟩ := ih hrest'
          exact ⟨rfl, rfl⟩
      | reference hr' | referenceFails hr' => rw [hr] at hr'; exact nomatch hr'
  | reference hr _ _ ihin ih =>
      cases h' with
      | code hr' => rw [hr] at hr'; exact nomatch hr'
      | reference hr' hin' hrest' =>
          rw [hr] at hr'
          obtain rfl := Option.some.inj hr'
          obtain ⟨rfl, he⟩ := ihin hin'
          cases he
          obtain ⟨rfl, rfl⟩ := ih hrest'
          exact ⟨rfl, rfl⟩
      | referenceFails hr' hin' =>
          rw [hr] at hr'
          obtain rfl := Option.some.inj hr'
          cases (ihin hin').2
  | referenceFails hr _ ihin =>
      cases h' with
      | code hr' => rw [hr] at hr'; exact nomatch hr'
      | reference hr' hin' =>
          rw [hr] at hr'
          obtain rfl := Option.some.inj hr'
          cases (ihin hin').2
      | referenceFails hr' hin' =>
          rw [hr] at hr'
          obtain rfl := Option.some.inj hr'
          exact ihin hin'

/-! ## Success -/

/-- Nothing that the name leads to is open or leads back to itself. -/
def Clear (t : ChunkTable) (path : OpenPath) (name : ChunkName) : Prop :=
  ∀ a, ReflTransGen t.Refers name a → a ∉ path.names ∧ ¬ TransGen t.Refers a a

/-- A chunk is clear if what it refers to is clear inside of it. -/
theorem Clear.enter {name : ChunkName} {path : OpenPath} (hn : name ∉ path.names)
    (h : ∀ r, t.Refers name r → t.Clear ⟨path.names ++ [name]⟩ r) : t.Clear path name := by
  intro a ha
  rcases ha.cases_head with rfl | ⟨r, hr, hra⟩
  · -- a cycle through the chunk would come back to it while it is open
    refine ⟨hn, fun hcycle => ?_⟩
    obtain ⟨r, hr, hrn⟩ := TransGen.head'_iff.1 hcycle
    exact (h r hr name hrn).1 (List.mem_append_right _ List.mem_cons_self)
  · obtain ⟨hopen, hcycle⟩ := h r hr a hra
    exact ⟨fun hmem => hopen (List.mem_append_left _ hmem), hcycle⟩

/-- An expansion that succeeds has met nothing that is open or on a cycle. -/
theorem Unfolds.clear {ahead : Ahead} {indent : Text} {path : OpenPath} {out : List Text}
    {e : Ending} (h : Unfolds t d ahead indent path out e) :
    e.cycle = none → ∀ x ∈ ahead.names, t.Clear path x := by
  induction h with
  | reentered _ => exact fun hnone => nomatch hnone
  | missing hn hc =>
      intro _ x hx
      obtain rfl := List.mem_singleton.1 hx
      refine Clear.enter hn ?_
      rintro r ⟨chunk, hc', -⟩
      rw [hc] at hc'
      exact nomatch hc'
  | chunk hn hc _ ih =>
      intro _ x hx
      obtain rfl := List.mem_singleton.1 hx
      refine Clear.enter hn fun r hr => ?_
      obtain ⟨chunk', hc', hmem⟩ := refers_iff_mem_references.1 hr
      rw [hc] at hc'
      obtain rfl := Option.some.inj hc'
      exact ih rfl r hmem
  | chunkFails _ _ _ _ => exact fun hnone => nomatch hnone
  | nil => exact fun _ x hx => nomatch hx
  | code hr _ ih =>
      intro hnone x hx
      rw [Ahead.names_code hr] at hx
      exact ih hnone x hx
  | reference hr hin _ ihin ih =>
      intro hnone x hx
      have hleft := hin.path_eq rfl
      rw [Ahead.names_reference hr] at hx
      rcases List.mem_cons.1 hx with rfl | hx
      · exact ihin rfl _ List.mem_cons_self
      · exact hleft ▸ ih hnone x hx
  | referenceFails _ _ _ => exact fun hnone => nomatch hnone

/-! ## Failure -/

/-- A way along references, from one of the names `starts` to the chunk `again`, that meets no
    open chunk and no chunk twice before it comes to `again`, which is one of these. -/
structure Reentry (t : ChunkTable) (opened starts way : List ChunkName) (again : ChunkName) :
    Prop where
  start : ∀ x ∈ (way ++ [again]).head?, x ∈ starts
  refers : (way ++ [again]).IsChain t.Refers
  distinct : opened.Nodup → (opened ++ way).Nodup
  meets : again ∈ opened ++ way

namespace Reentry

variable {opened starts way : List ChunkName} {name again : ChunkName}

/-- A way out of a chunk is a way through it. -/
theorem enter {chunk : Chunk} (hn : name ∉ opened) (hc : t.get? name = some chunk)
    (h : t.Reentry (opened ++ [name]) chunk.references way again) :
    t.Reentry opened [name] (name :: way) again where
  start := by
    intro x hx
    rw [← Option.mem_some.1 hx]
    exact List.mem_cons_self
  refers := by
    refine List.isChain_cons.2 ⟨fun x hx => ?_, h.refers⟩
    exact refers_iff_mem_references.2 ⟨chunk, hc, h.start x hx⟩
  distinct := by
    intro hopened
    have hinside : (opened ++ [name]).Nodup := List.nodup_append.2
      ⟨hopened, List.pairwise_singleton _ _, fun a ha b hb hab =>
        hn (List.mem_singleton.1 hb ▸ hab ▸ ha)⟩
    have hall := h.distinct hinside
    rwa [List.append_assoc] at hall
  meets := by
    have hmeets := h.meets
    rwa [List.append_assoc] at hmeets

theorem mono {starts' : List ChunkName} (hstarts : ∀ x ∈ starts, x ∈ starts')
    (h : t.Reentry opened starts way again) : t.Reentry opened starts' way again :=
  ⟨fun x hx => hstarts x (h.start x hx), h.refers, h.distinct, h.meets⟩

/-- Every chunk on the way leads to those behind it. -/
theorem pairwise (h : t.Reentry opened starts way again) :
    (way ++ [again]).Pairwise (TransGen t.Refers) :=
  (h.refers.imp fun _ _ => TransGen.single).pairwise

/-- The first name leads to every chunk on the way. -/
theorem leads (h : t.Reentry opened [name] way again) :
    ∀ x ∈ way ++ [again], ReflTransGen t.Refers name x := by
  have hpairwise := h.pairwise
  have hstart := h.start
  generalize way ++ [again] = whole at hpairwise hstart ⊢
  cases whole with
  | nil => exact fun x hx => nomatch hx
  | cons first rest =>
      obtain rfl : first = name := List.mem_singleton.1 (hstart first rfl)
      intro x hx
      rcases List.mem_cons.1 hx with rfl | hx
      · exact ReflTransGen.refl
      · exact ((List.pairwise_cons.1 hpairwise).1 x hx).to_reflTransGen

/-- A way that comes back to itself runs in a circle. -/
theorem cycle_of_mem (h : t.Reentry opened starts way again) (hmem : again ∈ way) :
    TransGen t.Refers again again :=
  (List.pairwise_append.1 h.pairwise).2.2 again hmem again List.mem_cons_self

end Reentry

/-- An expansion that fails has gone a way along references to a chunk that is open, or on the
    way, and ends inside all of these chunks. -/
theorem Unfolds.reentry {ahead : Ahead} {indent : Text} {path : OpenPath} {out : List Text}
    {e : Ending} (h : Unfolds t d ahead indent path out e) : ∀ cycle, e.cycle = some cycle →
      ∃ way again, t.Reentry path.names ahead.names way again ∧
        cycle = Lattice.closing (path.names ++ way) again := by
  induction h with
  | @reentered name indent path hn =>
      intro cycle hcycle
      refine ⟨[], name, ⟨?_, List.isChain_singleton _, ?_, ?_⟩, ?_⟩
      · intro x hx
        rw [← Option.mem_some.1 hx]
        exact List.mem_cons_self
      · rw [List.append_nil]
        exact id
      · rw [List.append_nil]
        exact hn
      · rw [List.append_nil]
        exact (Option.some.inj hcycle).symm
  | missing _ _ => exact fun _ hsome => nomatch hsome
  | chunk _ _ _ _ => exact fun _ hsome => nomatch hsome
  | @chunkFails name indent path inner chunk out cycle hn hc _ ih =>
      -- what was open inside is on the way now
      intro cycle' hcycle
      obtain ⟨way, again, hway, heq⟩ := ih cycle' hcycle
      refine ⟨name :: way, again, hway.enter hn hc, ?_⟩
      rwa [List.append_assoc] at heq
  | nil => exact fun _ hsome => nomatch hsome
  | code hr _ ih =>
      intro cycle hcycle
      rw [Ahead.names_code hr]
      exact ih cycle hcycle
  | @reference line rest _ _ left ref _ _ _ hr hin _ _ ih =>
      intro cycle hcycle
      obtain rfl : left = _ := hin.path_eq rfl
      obtain ⟨way, again, hway, heq⟩ := ih cycle hcycle
      refine ⟨way, again, hway.mono fun x hx => ?_, heq⟩
      rw [Ahead.names_reference hr]
      exact List.mem_cons_of_mem _ hx
  | referenceFails hr _ ih =>
      intro cycle hcycle
      obtain ⟨way, again, hway, heq⟩ := ih cycle hcycle
      refine ⟨way, again, hway.mono fun x hx => ?_, heq⟩
      rw [Ahead.names_reference hr]
      exact List.mem_cons.2 (Or.inl (List.mem_singleton.1 hx))

/-- An expansion fails exactly when the name leads to a chunk that is open or on a cycle. -/
theorem expand_fails_iff (name : ChunkName) (indent : Text) (path : OpenPath) :
    (t.expand d name indent path).value.cycle.isSome = true ↔
      ∃ a, ReflTransGen t.Refers name a ∧ (a ∈ path.names ∨ TransGen t.Refers a a) := by
  have hends := unfolds_expand (t := t) (d := d) name indent path
  constructor
  · intro hsome
    obtain ⟨cycle, hcycle⟩ := Option.isSome_iff_exists.1 hsome
    obtain ⟨way, again, hway, -⟩ := hends.reentry cycle hcycle
    refine ⟨again, hway.leads again (List.mem_append_right _ List.mem_cons_self), ?_⟩
    exact (List.mem_append.1 hway.meets).imp_right hway.cycle_of_mem
  · rintro ⟨a, ha, hmeets⟩
    rw [Option.isSome_iff_ne_none]
    intro hnone
    obtain ⟨hopen, hcycle⟩ := hends.clear hnone name List.mem_cons_self a ha
    exact hmeets.elim hopen hcycle

/-! ## Cycles -/

/-- Names along references that come back to the first and meet no other name twice. -/
structure IsCycle (t : ChunkTable) (names : List ChunkName) : Prop where
  two : 2 ≤ names.length
  closed : names.head? = names.getLast?
  distinct : names.dropLast.Nodup
  refers : names.IsChain t.Refers

/-- Where no chunk was open, what is closed is a cycle. -/
theorem Reentry.isCycle {starts way : List ChunkName} {again : ChunkName}
    (h : t.Reentry [] starts way again) : t.IsCycle (Lattice.closing way again) := by
  have hmeets : again ∈ way := h.meets
  obtain ⟨htwo, hclosed, hdistinct, hrefers⟩ :=
    Lattice.closing_goes_round hmeets (h.distinct List.nodup_nil) h.refers
  exact ⟨htwo, hclosed, hdistinct, hrefers⟩

theorem mem_closing {way : List ChunkName} {again x : ChunkName}
    (h : x ∈ Lattice.closing way again) : x ∈ way ++ [again] :=
  (Lattice.closing_suffix way again).subset h

/-- **Both searches for cycles agree.**  An expansion ends, from every name, at every
    indentation and inside every open path, by rules that leave no choice.  If it
    succeeds, the path is left as it was, and it fails exactly when the name leads
    to a chunk that is open or on a cycle.  Where no chunk is open only the second can
    be, and the failure names a cycle that the name leads to; that failure, and no
    other, is how writing the chunk to a file system that takes everything ends.  So
    the check finds no cycle exactly when every chunk can be expanded. -/
theorem expansion_agrees_with_check (t : ChunkTable) (d : Directive) :
    (∀ name indent path,
      (∃! ended : List Text × Ending, t.Unfolds d (.chunk name) indent path ended.1 ended.2) ∧
      t.Unfolds d (.chunk name) indent path (t.expand d name indent path).list
        (t.expand d name indent path).value ∧
      ((t.expand d name indent path).value.cycle = none →
        (t.expand d name indent path).value.path = path) ∧
      ((t.expand d name indent path).value.cycle.isSome = true ↔
        ∃ a, ReflTransGen t.Refers name a ∧ (a ∈ path.names ∨ TransGen t.Refers a a))) ∧
    (∀ name indent,
      ((t.expand d name indent .empty).value.cycle.isSome = true ↔
        ∃ a, ReflTransGen t.Refers name a ∧ TransGen t.Refers a a) ∧
      ∀ cycle, (t.expand d name indent .empty).value.cycle = some cycle →
        t.IsCycle cycle ∧ ∀ a ∈ cycle, ReflTransGen t.Refers name a) ∧
    (∀ (name : ChunkName) {σ : Type} (fs : FileSystem σ), fs.NeverFails → ∀ s,
      (Step.performAll fs.put [Job.tangleRoot t d name] s).1.2
        = (t.expansion d name).value.cycle.map fun cycle => .invalid [.cycle cycle]) ∧
    ((Lattice.ofTable t).checkAcyclic = none ↔
      ∀ name indent, (t.expand d name indent .empty).value.cycle = none) := by
  have hfresh (name : ChunkName) (indent : Text) :
      (t.expand d name indent .empty).value.cycle.isSome = true ↔
        ∃ a, ReflTransGen t.Refers name a ∧ TransGen t.Refers a a := by
    rw [expand_fails_iff]
    refine exists_congr fun a => and_congr_right fun _ => ?_
    exact ⟨fun hmeets => hmeets.resolve_left List.not_mem_nil, Or.inr⟩
  refine ⟨fun name indent path => ?_, fun name indent => ⟨hfresh name indent, ?_⟩, ?_, ?_⟩
  · have hends := unfolds_expand (t := t) (d := d) name indent path
    refine ⟨⟨(_, _), hends, ?_⟩, hends, hends.path_eq, expand_fails_iff name indent path⟩
    rintro ⟨out, e⟩ hother
    obtain ⟨hout, he⟩ := hother.unique hends
    exact Prod.ext hout he
  · intro cycle hcycle
    obtain ⟨way, again, hway, rfl⟩ :=
      (unfolds_expand (t := t) (d := d) name indent .empty).reentry cycle hcycle
    exact ⟨hway.isCycle, fun a ha => hway.leads a (mem_closing ha)⟩
  · intro name σ fs hfs s
    rw [Job.tangleRoot, Step.performAll_write hfs, Pieces.value_andThen]
    rfl
  · rw [Lattice.checkAcyclic, Option.map_eq_none_iff, Lattice.findCycle?_ofTable_eq_none_iff]
    have hnone (name : ChunkName) (indent : Text) :
        (t.expand d name indent .empty).value.cycle = none ↔
          ∀ a, ReflTransGen t.Refers name a → ¬ TransGen t.Refers a a := by
      rw [← Option.not_isSome_iff_eq_none, hfresh]
      simp only [not_exists, not_and]
    simp only [hnone]
    exact ⟨fun hac _ _ a _ => hac a, fun h a => h a [] a ReflTransGen.refl⟩

end ChunkTable

end Literate
