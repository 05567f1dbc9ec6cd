import Literate.Build.Run
import Literate.Proofs.Expansion.Trace

/-! # Expansion by rules

    What tangling a chunk should give, said without an open path, without
    pieces and without failures: three rules, one for each shape of the lines
    that are left.  There is no rule for a reference whose chunk is missing.

    For every name of a lattice that passed the check the rules give exactly one
    text, and tangling gives that text. -/

namespace Literate

open Relation

/-- The text of a code line: directive, indentation, the line and a line feed. -/
def ChunkLine.tangled (d : Directive) (indent : Text) (line : ChunkLine) : Text :=
  d.format (indent ++ line.text.indent) line.location.file.spelling line.location.line
    ++ indent ++ line.text ++ ['\n']

/-- The text of an emission. -/
def Emission.text (d : Directive) (e : Emission) : Text :=
  e.line.tangled d e.indent

/-- The pieces of a trace make the texts of its emissions. -/
theorem Emission.flatten_pieces (d : Directive) (es : List Emission) :
    (es.flatMap (Emission.pieces d)).flatten = es.flatMap (Emission.text d) := by
  have hone (e : Emission) : (e.pieces d).flatten = e.text d := by
    simp [Emission.pieces, ChunkLine.pieces, Emission.text, ChunkLine.tangled]
  induction es with
  | nil => rfl
  | cons e es ih =>
      rw [List.flatMap_cons, List.flatten_append, hone, ih, List.flatMap_cons]

namespace ChunkTable

variable {t : ChunkTable} {d : Directive}

/-- The text that lines expand to at an indentation. -/
inductive ExpandsLines (t : ChunkTable) (d : Directive) :
    List ChunkLine → Text → Text → Prop where
  | nil {indent : Text} : ExpandsLines t d [] indent []
  | code {line : ChunkLine} {rest : List ChunkLine} {indent out : Text} :
      line.reference? = none → ExpandsLines t d rest indent out →
      ExpandsLines t d (line :: rest) indent (line.tangled d indent ++ out)
  | reference {line : ChunkLine} {rest : List ChunkLine} {indent inner out : Text}
      {ref : Reference} {chunk : Chunk} :
      line.reference? = some ref → t.get? ref.name = some chunk →
      ExpandsLines t d chunk.lines (ref.indent ++ indent) inner →
      ExpandsLines t d rest indent out →
      ExpandsLines t d (line :: rest) indent (inner ++ out)

/-- The text that a chunk expands to at an indentation. -/
def Expands (t : ChunkTable) (d : Directive) (name : ChunkName) (indent out : Text) :
    Prop :=
  ∃ chunk, t.get? name = some chunk ∧ ExpandsLines t d chunk.lines indent out

/-- The rules leave no choice. -/
theorem ExpandsLines.unique {lines : List ChunkLine} {indent out out' : Text}
    (h : ExpandsLines t d lines indent out) (h' : ExpandsLines t d lines indent out') :
    out = out' := by
  induction h generalizing out' with
  | nil =>
      cases h' with
      | nil => rfl
  | code hr _ ih =>
      cases h' with
      | code _ hrest => rw [ih hrest]
      | reference hr' _ _ _ => rw [hr] at hr'; exact nomatch hr'
  | reference hr hc _ _ ihin ih =>
      cases h' with
      | code hr' _ => rw [hr] at hr'; exact nomatch hr'
      | reference hr' hc' hin' hrest' =>
          rw [hr] at hr'
          obtain rfl := Option.some.inj hr'
          rw [hc] at hc'
          obtain rfl := Option.some.inj hc'
          rw [ihin hin', ih hrest']

theorem Expands.unique {name : ChunkName} {indent out out' : Text}
    (h : t.Expands d name indent out) (h' : t.Expands d name indent out') :
    out = out' := by
  obtain ⟨chunk, hc, hlines⟩ := h
  obtain ⟨chunk', hc', hlines'⟩ := h'
  rw [hc] at hc'
  obtain rfl := Option.some.inj hc'
  exact hlines.unique hlines'

/-- A trace is a derivation of the text that it writes. -/
theorem Emits.expandsLines {via : List Site} {c : ChunkName} {k : Nat}
    {lines : List ChunkLine} {indent : Text} {es : List Emission}
    (h : Emits t via c k lines indent es) :
    ExpandsLines t d lines indent (es.flatMap (Emission.text d)) := by
  induction h with
  | nil => exact ExpandsLines.nil
  | code hr _ ih => exact ExpandsLines.code hr ih
  | reference hr hc _ _ ihin ih =>
      rw [List.flatMap_append]
      exact ExpandsLines.reference hr hc ihin ih

/-- Without cycles and missing chunks, the rules give a text at every
    indentation. -/
theorem exists_expands (hac : t.Acyclic) (hcl : t.Closed) {name : ChunkName}
    (hn : name ∈ t.keys) (indent : Text) : ∃ out, t.Expands d name indent out := by
  obtain ⟨chunk, hc⟩ := OrderedMap.mem_keys_iff.1 hn
  obtain ⟨es, hes⟩ := exists_emits hac hcl name chunk hc [] indent
  exact ⟨_, chunk, hc, hes.expandsLines⟩

/-! ## Entering chunks -/

/-- The chunks that are entered on the way down from `name`, each with the chunks
    that are open around it. -/
inductive Enters (t : ChunkTable) (name : ChunkName) : List ChunkName → ChunkName → Prop
    where
  | start : Enters t name [] name
  | reference {path : List ChunkName} {c r : ChunkName} :
      Enters t name path c → t.Refers c r → Enters t name (path ++ [c]) r

theorem Enters.transGen {name c : ChunkName} {path : List ChunkName}
    (h : t.Enters name path c) : ∀ a ∈ path, TransGen t.Refers a c := by
  induction h with
  | start => intro a ha; exact nomatch ha
  | reference _ href ih =>
      intro a ha
      rcases List.mem_append.mp ha with hold | hnew
      · exact (ih a hold).tail href
      · rw [List.mem_singleton.mp hnew]
        exact TransGen.single href

theorem Enters.reflTransGen {name c : ChunkName} {path : List ChunkName}
    (h : t.Enters name path c) : ReflTransGen t.Refers name c := by
  induction h with
  | start => exact ReflTransGen.refl
  | reference _ href ih => exact ih.tail href

/-- No chunk is entered while it is open. -/
theorem Enters.push_eq_ok (hac : t.Acyclic) {name c : ChunkName} {path : List ChunkName}
    (h : t.Enters name path c) : (OpenPath.mk path).push c = .ok ⟨path ++ [c]⟩ :=
  OpenPath.push_eq_ok_iff.2 ⟨fun hmem => hac c (h.transGen c hmem), rfl⟩

/-- Every chunk that is entered is there. -/
theorem Enters.exists_chunk (hcl : t.Closed) {name c : ChunkName} {path : List ChunkName}
    (h : t.Enters name path c) (hn : name ∈ t.keys) : ∃ chunk, t.get? c = some chunk :=
  OrderedMap.mem_keys_iff.1 (hcl.mem_keys hn h.reflTransGen)

/-! ## Tangling -/

/-- Where all names are defined, the lattice has no names but those of the table. -/
theorem Closed.mem_names_iff (hcl : t.Closed) {name : ChunkName} :
    name ∈ (Lattice.ofTable t).names ↔ name ∈ t.keys := by
  rw [Lattice.mem_names_ofTable]
  constructor
  · rintro (hkey | ⟨a, href⟩)
    · exact hkey
    · exact hcl a name href
  · exact Or.inl

/-- Tangling a known chunk gives what it expands to, unless that closes a cycle. -/
theorem tangleText_of_no_cycle {l : Lattice} {name : ChunkName} (hn : name ∈ l.names)
    (hends : (t.expansion d name).value.cycle = none) :
    tangleText t l d name = .ok (t.expansion d name).text := by
  rw [tangleText]
  rw [if_pos (List.contains_iff_mem.2 hn)]
  simp only [Pieces.collect_eq, hends]
  rfl

/-- Tangling a known chunk writes the texts of its trace. -/
theorem Trace.tangleText_eq (hac : t.Acyclic) {name : ChunkName} {es : List Emission}
    (h : t.Trace name es) (hn : name ∈ (Lattice.ofTable t).names) (d : Directive) :
    tangleText t (Lattice.ofTable t) d name = .ok (es.flatMap (Emission.text d)) := by
  obtain ⟨hlist, hvalue⟩ := h.run hac d
  have hends : (t.expansion d name).value.cycle = none := by rw [hvalue]
  rw [tangleText_of_no_cycle hn hends, Pieces.text, hlist, Emission.flatten_pieces]

/-- In a table that passed the check every name of the lattice has a trace. -/
theorem exists_trace (hac : t.Acyclic) (hcl : t.Closed) {name : ChunkName}
    (hn : name ∈ t.keys) : ∃ es, t.Trace name es := by
  obtain ⟨chunk, hc⟩ := OrderedMap.mem_keys_iff.1 hn
  obtain ⟨es, hes⟩ := exists_emits hac hcl name chunk hc [] []
  exact ⟨es, chunk, hc, hes⟩

/-- **Tangling follows the rules.**  For every name of a lattice that passed the
    check, tangling succeeds with the text that the rules give; at every
    indentation the rules give exactly one text; the expansion ends with no
    chunk open and has closed no cycle, because no chunk is entered while it is
    open, and every chunk that is entered is there.  Any other name is refused
    as unknown. -/
theorem tangleText_eq_expansion (t : ChunkTable)
    (hv : (Lattice.ofTable t).problems t = []) (d : Directive) (name : ChunkName) :
    (name ∈ (Lattice.ofTable t).names →
      (∃ out, tangleText t (Lattice.ofTable t) d name = .ok out ∧
        t.Expands d name [] out) ∧
      (∀ indent, ∃! out, t.Expands d name indent out) ∧
      (t.expansion d name).value = ⟨.empty, none⟩ ∧
      (∀ path c, t.Enters name path c →
        (OpenPath.mk path).push c = .ok ⟨path ++ [c]⟩ ∧
        ∃ chunk, t.get? c = some chunk)) ∧
    (name ∉ (Lattice.ofTable t).names →
      tangleText t (Lattice.ofTable t) d name = .error (.unknownChunk name) ∧
      (Error.unknownChunk name).message = "Unknown chunk: " ++ toString name) := by
  obtain ⟨-, hac, hcl⟩ := Lattice.problems_eq_nil_iff.1 hv
  refine ⟨fun hn => ?_, fun hn => ?_⟩
  · have hkey : name ∈ t.keys := hcl.mem_names_iff.1 hn
    obtain ⟨es, hes⟩ := exists_trace hac hcl hkey
    have hes' := hes
    obtain ⟨chunk, hc, hemits⟩ := hes'
    refine ⟨⟨_, hes.tangleText_eq hac hn d, chunk, hc, hemits.expandsLines⟩, ?_,
      (hes.run hac d).2, ?_⟩
    · intro indent
      obtain ⟨out, hout⟩ := exists_expands hac hcl hkey indent
      exact ⟨out, hout, fun out' hout' => hout'.unique hout⟩
    · intro path c hpath
      exact ⟨hpath.push_eq_ok hac, hpath.exists_chunk hcl hkey⟩
  · refine ⟨?_, rfl⟩
    rw [tangleText]
    rw [if_neg (fun hmem => hn (List.contains_iff_mem.1 hmem))]

/-- A file that pulls in one chunk by itself and twice more through another. -/
def diamond : ChunkTable :=
  let document : Path := ⟨['w', '.', 'm', 'd']⟩
  [(['m', '.', 'c'], 2, ['@', '{', 'a', '}']),
    (['m', '.', 'c'], 3, ['\t', '@', '{', 'b', '}']),
    (['a'], 6, [' ', 'x']),
    (['a'], 7, ['@', '{', 'b', '}']),
    (['a'], 8, [' ', ' ', '@', '{', ' ', 'b', '}', ' ']),
    (['b'], 11, ['y'])].foldl
      (fun t line => t.addLine ⟨line.1⟩ ⟨⟨document, line.2.1⟩, line.2.2⟩) {}

theorem tangleText_diamond :
    (Lattice.ofTable diamond).problems diamond = [] ∧
    tangleText diamond (Lattice.ofTable diamond) .none ⟨['m', '.', 'c']⟩
      = .ok [' ', 'x', '\n', 'y', '\n', ' ', ' ', 'y', '\n', '\t', 'y', '\n'] ∧
    diamond.Expands .none ⟨['m', '.', 'c']⟩ []
      [' ', 'x', '\n', 'y', '\n', ' ', ' ', 'y', '\n', '\t', 'y', '\n'] ∧
    tangleText diamond (Lattice.ofTable diamond) .none ⟨['z']⟩
      = .error (.unknownChunk ⟨['z']⟩) := by
  have hv : (Lattice.ofTable diamond).problems diamond = [] := by decide +kernel
  have hexpands : diamond.Expands .none ⟨['m', '.', 'c']⟩ [] _ :=
    ⟨_, rfl, .reference rfl rfl
      (.code rfl (.reference rfl rfl (.code rfl .nil) (.reference rfl rfl (.code rfl .nil) .nil)))
      (.reference rfl rfl (.code rfl .nil) .nil)⟩
  obtain ⟨out, hout, hexp⟩ :=
    ((tangleText_eq_expansion diamond hv .none ⟨['m', '.', 'c']⟩).1 (by decide)).1
  obtain rfl := hexp.unique hexpands
  have hunknown := (tangleText_eq_expansion diamond hv .none ⟨['z']⟩).2 (by decide)
  exact ⟨hv, hout, hexpands, hunknown.1⟩

end ChunkTable

end Literate
