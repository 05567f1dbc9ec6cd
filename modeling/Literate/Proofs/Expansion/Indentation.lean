import Literate.Proofs.Expansion.Coverage
import Literate.Proofs.Expansion.Presentation

/-! # Where the indentation goes

    An indentation is handed down from reference to reference, and each puts its
    own blanks in front of it.  So at the bottom it stands behind everything that
    was gathered on the way, and right before the text of the line.

    * What a chunk expands to is laid out once, without any indentation, as rows
      of blanks gathered and text (`LaysOut`, `Unfolds.exists_laysOut`).
    * At every indentation and inside every open path the same rows are written,
      with the indentation between the two (`LaysOut.flatten_eq`).
    * So indenting an expansion is putting the indentation in front of its lines
      only where it commutes with the blanks gathered
      (`Row.unlines_eq_iff`), and a reference contributes what its chunk expands to
      at the blanks before it and the indentation behind them
      (`LaysOut.unlines_eq_flatMap`). -/

namespace Literate

open Relation

/-- A line of an expansion, apart from the indentation around it. -/
structure Row where
  /-- The blanks before the references that lead to the line, the innermost first. -/
  lead : Text
  text : Text
  deriving DecidableEq

namespace Row

/-- The row as it is written at an indentation. -/
def writtenAt (indent : Text) (row : Row) : Text :=
  row.lead ++ indent ++ row.text

/-- The row of a chunk that a reference has entered. -/
def through (ref : Reference) (row : Row) : Row :=
  { row with lead := row.lead ++ ref.indent }

/-- Blanks before the text, and a line feed in neither. -/
structure Plain (row : Row) : Prop where
  blank : row.lead.all isBlank = true
  lead : '\n' ∉ row.lead
  text : '\n' ∉ row.text

theorem writtenAt_through (ref : Reference) (indent : Text) (row : Row) :
    (row.through ref).writtenAt indent = row.writtenAt (ref.indent ++ indent) := by
  simp only [writtenAt, through, List.append_assoc]

/-- The rows of a reference are those of its chunk, further in. -/
theorem unlines_through (ref : Reference) (indent : Text) (inner rows : List Row) :
    Text.unlines ((inner.map (through ref) ++ rows).map (writtenAt indent))
      = Text.unlines (inner.map (writtenAt (ref.indent ++ indent)))
        ++ Text.unlines (rows.map (writtenAt indent)) := by
  simp only [Text.unlines, List.map_append, List.map_map, List.flatMap_append, List.flatMap_map,
    Function.comp_apply, writtenAt_through]

/-- Blocks of the same lengths make up the same text only if they are the same. -/
theorem flatMap_eq_iff_of_length {α β : Type} {as : List α} {f g : α → List β}
    (h : ∀ a ∈ as, (f a).length = (g a).length) :
    as.flatMap f = as.flatMap g ↔ ∀ a ∈ as, f a = g a := by
  induction as with
  | nil => simp
  | cons a as ih =>
      rw [List.forall_mem_cons] at h ⊢
      rw [List.flatMap_cons, List.flatMap_cons, ← ih h.2]
      constructor
      · intro happ
        exact List.append_inj happ h.1
      · rintro ⟨hhead, htail⟩
        rw [hhead, htail]

/-- The indentation may as well be put in front of each line, exactly if it commutes with
    all leads. -/
theorem unlines_eq_iff (rows : List Row) (indent : Text) :
    Text.unlines (rows.map (writtenAt indent))
        = Text.unlines ((rows.map (writtenAt [])).map (indent ++ ·)) ↔
      ∀ row ∈ rows, row.lead ++ indent = indent ++ row.lead := by
  rw [Text.unlines, Text.unlines, List.map_map, List.flatMap_map, List.flatMap_map,
    flatMap_eq_iff_of_length]
  · refine forall_congr' fun row => forall_congr' fun _ => ?_
    simp [writtenAt, ← List.append_assoc]
  · intro row _
    simp only [writtenAt, Function.comp_apply, List.length_append, List.length_nil]
    omega

end Row

namespace ChunkTable

variable {t : ChunkTable} {d : Directive}

/-- No line of the table has a line feed of its own. -/
def NewlineFree (t : ChunkTable) : Prop :=
  ∀ e ∈ t.entries, ∀ line ∈ e.2.lines, '\n' ∉ line.text

/-- The rows of what is ahead. -/
inductive LaysOut (t : ChunkTable) : Ahead → List Row → Prop where
  | missing {name : ChunkName} : t.get? name = none → LaysOut t (.chunk name) []
  | chunk {name : ChunkName} {chunk : Chunk} {rows : List Row} :
      t.get? name = some chunk → LaysOut t (.lines chunk.lines) rows →
      LaysOut t (.chunk name) rows
  | nil : LaysOut t (.lines []) []
  | code {line : ChunkLine} {rest : List ChunkLine} {rows : List Row} :
      line.reference? = none → LaysOut t (.lines rest) rows →
      LaysOut t (.lines (line :: rest)) (⟨[], line.text⟩ :: rows)
  | reference {line : ChunkLine} {rest : List ChunkLine} {ref : Reference}
      {inner rows : List Row} :
      line.reference? = some ref → LaysOut t (.chunk ref.name) inner →
      LaysOut t (.lines rest) rows →
      LaysOut t (.lines (line :: rest)) (inner.map (Row.through ref) ++ rows)

/-- What an expansion gives out when it succeeds has been laid out. -/
theorem Unfolds.exists_laysOut {ahead : Ahead} {indent : Text} {path : OpenPath}
    {out : List Text} {e : Ending} (h : Unfolds t d ahead indent path out e) :
    e.cycle = none → ∃ rows, t.LaysOut ahead rows := by
  induction h with
  | reentered _ => exact fun hnone => nomatch hnone
  | missing _ hc => exact fun _ => ⟨[], .missing hc⟩
  | chunk _ hc _ ih =>
      intro _
      obtain ⟨rows, hrows⟩ := ih rfl
      exact ⟨rows, .chunk hc hrows⟩
  | chunkFails _ _ _ _ => exact fun hnone => nomatch hnone
  | nil => exact fun _ => ⟨[], .nil⟩
  | code hr _ ih =>
      intro hnone
      obtain ⟨rows, hrows⟩ := ih hnone
      exact ⟨_, .code hr hrows⟩
  | reference hr _ _ ihin ih =>
      intro hnone
      obtain ⟨inner, hinner⟩ := ihin rfl
      obtain ⟨rows, hrows⟩ := ih hnone
      exact ⟨_, .reference hr hinner hrows⟩
  | referenceFails _ _ _ => exact fun hnone => nomatch hnone

/-- The rows are written at every indentation and inside every path. -/
theorem LaysOut.flatten_eq {ahead : Ahead} {rows : List Row} (h : t.LaysOut ahead rows) :
    ∀ {indent : Text} {path : OpenPath} {out : List Text} {e : Ending},
      Unfolds t .none ahead indent path out e → e.cycle = none →
      out.flatten = Text.unlines (rows.map (Row.writtenAt indent)) := by
  induction h with
  | missing hc =>
      intro indent path out e hout hnone
      cases hout with
      | reentered => exact nomatch hnone
      | missing => rfl
      | chunk _ hc' | chunkFails _ hc' => rw [hc] at hc'; exact nomatch hc'
  | chunk hc _ ih =>
      intro indent path out e hout hnone
      cases hout with
      | reentered => exact nomatch hnone
      | missing _ hc' => rw [hc] at hc'; exact nomatch hc'
      | chunk _ hc' hlines =>
          rw [hc] at hc'
          obtain rfl := Option.some.inj hc'
          exact ih hlines rfl
      | chunkFails => exact nomatch hnone
  | nil =>
      intro indent path out e hout _
      cases hout
      rfl
  | code hr _ ih =>
      intro indent path out e hout hnone
      cases hout with
      | code _ hrest =>
          rw [List.flatten_append, ih hrest hnone, flatten_pieces_none]
          rfl
      | reference hr' | referenceFails hr' => rw [hr] at hr'; exact nomatch hr'
  | reference hr _ _ ihin ih =>
      intro indent path out e hout hnone
      cases hout with
      | code hr' => rw [hr] at hr'; exact nomatch hr'
      | reference hr' hin hrest =>
          rw [hr] at hr'
          obtain rfl := Option.some.inj hr'
          rw [List.flatten_append, ihin hin rfl, ih hrest hnone, Row.unlines_through]
      | referenceFails => exact nomatch hnone

/-- The blanks before a reference are the beginning of its line. -/
theorem begins_with_indent {line : ChunkLine} {ref : Reference}
    (h : line.reference? = some ref) : ref.indent <+: line.text := by
  obtain ⟨before, after, behind, hline, -⟩ := Line.reference?_eq_some_iff.mp h
  rw [hline]
  simp only [List.append_assoc]
  exact List.prefix_append _ _

/-- Rows of lines without line feeds have none, and their leads are blank. -/
theorem LaysOut.plain (ht : t.NewlineFree) {ahead : Ahead} {rows : List Row}
    (h : t.LaysOut ahead rows) :
    (∀ ls, ahead = .lines ls → ∀ line ∈ ls, '\n' ∉ line.text) → ∀ row ∈ rows, row.Plain := by
  induction h with
  | missing _ => intro _ row hrow; exact nomatch hrow
  | chunk hc _ ih =>
      intro _
      refine ih ?_
      rintro ls ⟨⟩
      exact ht _ (OrderedMap.get?_eq_some_iff.mp hc)
  | nil => intro _ row hrow; exact nomatch hrow
  | code _ _ ih =>
      intro hlines row hrow
      obtain ⟨hline, hrest⟩ := List.forall_mem_cons.mp (hlines _ rfl)
      rcases List.mem_cons.mp hrow with rfl | hrow
      · exact ⟨rfl, List.not_mem_nil, hline⟩
      · refine ih ?_ row hrow
        rintro ls ⟨⟩
        exact hrest
  | reference hr _ _ ihin ih =>
      intro hlines row hrow
      obtain ⟨hline, hrest⟩ := List.forall_mem_cons.mp (hlines _ rfl)
      rcases List.mem_append.mp hrow with hrow | hrow
      · obtain ⟨inner, hinner, rfl⟩ := List.mem_map.mp hrow
        obtain ⟨hblank, hlead, htext⟩ := ihin (fun ls hls => nomatch hls) inner hinner
        refine ⟨?_, ?_, htext⟩
        · rw [Row.through, List.all_append, hblank, indent_reference_blank hr]
          rfl
        · rw [Row.through, List.mem_append, not_or]
          exact ⟨hlead, fun hmem => hline ((begins_with_indent hr).subset hmem)⟩
      · refine ih ?_ row hrow
        rintro ls ⟨⟩
        exact hrest

/-! ## Tables without cycles -/

theorem Acyclic.expand_succeeds (hac : t.Acyclic) (name : ChunkName) (indent : Text) :
    (t.expand d name indent .empty).value.cycle = none := by
  rw [← Option.not_isSome_iff_eq_none, expand_fails_iff]
  rintro ⟨a, -, hopen | hcycle⟩
  · exact nomatch hopen
  · exact hac a hcycle

theorem Acyclic.exists_laysOut (hac : t.Acyclic) (name : ChunkName) :
    ∃ rows, t.LaysOut (.chunk name) rows :=
  (unfolds_expand (d := .none) name [] .empty).exists_laysOut (hac.expand_succeeds name [])

theorem LaysOut.text_expand (hac : t.Acyclic) {name : ChunkName} {rows : List Row}
    (h : t.LaysOut (.chunk name) rows) (indent : Text) :
    (t.expand .none name indent .empty).text
      = Text.unlines (rows.map (Row.writtenAt indent)) :=
  h.flatten_eq (unfolds_expand name indent .empty) (hac.expand_succeeds name indent)

/-- What one line of a chunk contributes to the expansion at an indentation. -/
def contribution (t : ChunkTable) (indent : Text) (line : ChunkLine) : Text :=
  match line.reference? with
  | some ref => (t.expand .none ref.name (ref.indent ++ indent) .empty).text
  | none => indent ++ line.text ++ ['\n']

/-- The rows of lines are what the lines contribute, one after the other. -/
theorem LaysOut.unlines_eq_flatMap (hac : t.Acyclic) {ls : List ChunkLine} {rows : List Row}
    (h : t.LaysOut (.lines ls) rows) (indent : Text) :
    Text.unlines (rows.map (Row.writtenAt indent)) = ls.flatMap (t.contribution indent) := by
  induction ls generalizing rows with
  | nil =>
      cases h
      rfl
  | cons line rest ih =>
      rw [List.flatMap_cons, contribution]
      cases h with
      | code hr hrest =>
          rw [hr, ← ih hrest]
          rfl
      | reference hr hinner hrest =>
          rw [hr, ← ih hrest, Row.unlines_through]
          exact congrArg (· ++ _) (hinner.text_expand hac _).symm

/-- **Where the indentation goes.**  Without cycles every chunk can be expanded at every
    indentation, and always to the same rows: the indentation is put between the blanks
    gathered from the references that lead to a line and the line itself.  It may be
    put in front of each line instead exactly if it commutes with the blanks
    gathered, as it does where all are the same character.  A line that is a
    reference contributes what its chunk expands to at the blanks before it,
    followed by the indentation. -/
theorem indentation_goes_behind_the_leads (t : ChunkTable) (hac : t.Acyclic)
    (ht : t.NewlineFree) (name : ChunkName) :
    (∃ rows, t.LaysOut (.chunk name) rows ∧ (∀ row ∈ rows, row.Plain) ∧
      ∀ indent : Text,
        (t.expand .none name indent .empty).value.cycle = none ∧
        (t.expand .none name indent .empty).text
          = Text.unlines (rows.map (Row.writtenAt indent)) ∧
        ((t.expand .none name indent .empty).text
            = Text.unlines ((rows.map (Row.writtenAt [])).map (indent ++ ·)) ↔
          ∀ row ∈ rows, row.lead ++ indent = indent ++ row.lead) ∧
        ∀ c, (∀ x ∈ indent, x = c) → (∀ row ∈ rows, ∀ x ∈ row.lead, x = c) →
          (t.expand .none name indent .empty).text
            = Text.unlines ((rows.map (Row.writtenAt [])).map (indent ++ ·))) ∧
    ∀ chunk, t.get? name = some chunk → ∀ indent : Text,
      (t.expand .none name indent .empty).text = chunk.lines.flatMap (t.contribution indent) := by
  obtain ⟨rows, hrows⟩ := hac.exists_laysOut name
  constructor
  · refine ⟨rows, hrows, hrows.plain ht (fun ls hls => nomatch hls), fun indent => ?_⟩
    have htext := hrows.text_expand hac indent
    have hiff := Row.unlines_eq_iff rows indent
    rw [← htext] at hiff
    refine ⟨hac.expand_succeeds name indent, htext, hiff, fun c hindent hlead => hiff.mpr ?_⟩
    intro row hrow
    rw [List.eq_replicate_of_mem hindent, List.eq_replicate_of_mem (hlead row hrow),
      List.replicate_append_replicate, List.replicate_append_replicate, Nat.add_comm]
  · intro chunk hchunk indent
    cases hrows with
    | missing hc => rw [hchunk] at hc; exact nomatch hc
    | chunk hc hlines =>
        rw [hchunk] at hc
        obtain rfl := Option.some.inj hc
        rw [(LaysOut.chunk hchunk hlines).text_expand hac, hlines.unlines_eq_flatMap hac]

/-- A chunk that refers to another one behind a tab. -/
def tabbed : ChunkTable :=
  let document : Path := ⟨['f']⟩
  [(['a'], 1, ['\t', '@', '{', 'b', '}']), (['b'], 2, ['x'])].foldl
    (fun t line => t.addLine ⟨line.1⟩ ⟨⟨document, line.2.1⟩, line.2.2⟩) {}

theorem laysOut_tabbed : tabbed.LaysOut (.chunk ⟨['a']⟩) [⟨['\t'], ['x']⟩] := by
  have hinner : tabbed.LaysOut (.chunk ⟨['b']⟩) [⟨[], ['x']⟩] := .chunk rfl (.code rfl .nil)
  have houter : tabbed.LaysOut (.lines [⟨⟨⟨['f']⟩, 1⟩, ['\t', '@', '{', 'b', '}']⟩])
      ([⟨[], ['x']⟩].map (Row.through ⟨['\t'], ⟨['b']⟩⟩) ++ []) := .reference rfl hinner .nil
  exact .chunk rfl houter

theorem acyclic_tabbed : tabbed.Acyclic :=
  Lattice.findCycle?_ofTable_eq_none_iff.mp (by decide +kernel)

theorem newlineFree_tabbed : tabbed.NewlineFree := by
  unfold NewlineFree
  decide

/-- At a blank the line begins with the tab, not with the blank. -/
theorem indentation_is_not_put_in_front :
    tabbed.Acyclic ∧ tabbed.NewlineFree ∧
      (tabbed.expand .none ⟨['a']⟩ [] .empty).text = Text.unlines [['\t', 'x']] ∧
      (tabbed.expand .none ⟨['a']⟩ [' '] .empty).text
        ≠ Text.unlines ([['\t', 'x']].map ([' '] ++ ·)) := by
  refine ⟨acyclic_tabbed, newlineFree_tabbed, laysOut_tabbed.text_expand acyclic_tabbed [], ?_⟩
  rw [laysOut_tabbed.text_expand acyclic_tabbed]
  decide

theorem indentation_of_tabbed :
    tabbed.Acyclic ∧ tabbed.NewlineFree ∧
      ∃ rows, tabbed.LaysOut (.chunk ⟨['a']⟩) rows ∧ (∀ row ∈ rows, row.Plain) ∧
        ∀ indent : Text, (tabbed.expand .none ⟨['a']⟩ indent .empty).value.cycle = none ∧
          (tabbed.expand .none ⟨['a']⟩ indent .empty).text
            = Text.unlines (rows.map (Row.writtenAt indent)) := by
  obtain ⟨⟨rows, hrows, hplain, hall⟩, -⟩ :=
    indentation_goes_behind_the_leads tabbed acyclic_tabbed newlineFree_tabbed ⟨['a']⟩
  exact ⟨acyclic_tabbed, newlineFree_tabbed, rows, hrows, hplain,
    fun indent => ⟨(hall indent).1, (hall indent).2.1⟩⟩

end ChunkTable

end Literate
