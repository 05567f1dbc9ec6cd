import Literate.Proofs.Expansion.Reentry

/-! # Writing to what can run full

    An expansion is written piece by piece: directive, indentation, text and line
    end of a line each for itself, from whatever depth the line stands at.  A sink
    takes pieces as long as it has room and answers the first that does not fit
    with a fault.  That ends the writing in all chunks that are open, so that no
    later piece is tried, however small.

    * Of pieces that make a text within the room all are taken
      (`Pieces.take_of_le`), and of others those before the first that does
      not fit (`Pieces.take_of_lt`).
    * Handing the pieces to a sink one after the other comes to the same
      (`Pieces.feed_write`). -/

namespace Literate

open Relation

/-! ## Taking pieces as long as there is room -/

namespace Pieces

variable {α : Type}

theorem takeFrom_eq (p : Pieces α) (taken : List Text) (limit : Nat) :
    p.takeFrom taken limit = (taken.reverse ++ (p.take limit).1, (p.take limit).2) := by
  induction p generalizing taken limit with
  | done a =>
      show (taken.reverse, some a) = (taken.reverse ++ [], some a)
      rw [List.append_nil]
  | piece t rest ih =>
      rw [take, takeFrom, takeFrom]
      split
      · rw [ih, ih () [t], List.reverse_cons, List.append_assoc]
        rfl
      · show (taken.reverse, none) = (taken.reverse ++ [], none)
        rw [List.append_nil]

/-- A piece that fits is taken and leaves less room. -/
theorem take_piece_of_le {t : Text} {limit : Nat} (h : t.byteSize ≤ limit)
    (rest : Unit → Pieces α) :
    (piece t rest).take limit
      = (t :: ((rest ()).take (limit - t.byteSize)).1, ((rest ()).take (limit - t.byteSize)).2) := by
  rw [take, takeFrom, if_pos h, takeFrom_eq]
  rfl

/-- A piece that does not fit is the end. -/
theorem take_piece_of_lt {t : Text} {limit : Nat} (h : limit < t.byteSize)
    (rest : Unit → Pieces α) : (piece t rest).take limit = ([], none) := by
  rw [take, takeFrom, if_neg (Nat.not_le.mpr h)]
  rfl

/-- Pieces for which there is room are all taken. -/
theorem take_of_le {p : Pieces α} {limit : Nat} (h : p.text.byteSize ≤ limit) :
    p.take limit = (p.list, some p.value) := by
  induction p generalizing limit with
  | done a => rfl
  | piece t rest ih =>
      rw [text_piece, Text.byteSize_append] at h
      have hrest : (rest ()).text.byteSize ≤ limit - t.byteSize := by omega
      rw [take_piece_of_le (by omega), ih () hrest]
      rfl

/-- Of pieces that are too many those before the first that does not fit are taken. -/
theorem take_of_lt {p : Pieces α} {limit : Nat} (h : limit < p.text.byteSize) :
    (p.take limit).2 = none ∧ ∃ refused behind, p.list = (p.take limit).1 ++ refused :: behind ∧
      Text.byteSize (p.take limit).1.flatten ≤ limit ∧
      limit < Text.byteSize ((p.take limit).1.flatten ++ refused) := by
  induction p generalizing limit with
  | done a => exact absurd h (Nat.not_lt_zero limit)
  | piece t rest ih =>
      by_cases hfits : t.byteSize ≤ limit
      · rw [text_piece, Text.byteSize_append] at h
        have hrest : limit - t.byteSize < (rest ()).text.byteSize := by omega
        obtain ⟨hnone, refused, behind, hlist, hroom, hover⟩ := ih () hrest
        rw [take_piece_of_le hfits]
        refine ⟨hnone, refused, behind, ?_, ?_, ?_⟩
        · rw [list, hlist]
          rfl
        · rw [List.flatten_cons, Text.byteSize_append]
          omega
        · rw [List.flatten_cons, List.append_assoc, Text.byteSize_append]
          omega
      · rw [take_piece_of_lt (Nat.not_le.mp hfits)]
        exact ⟨rfl, t, (rest ()).list, rfl, Nat.zero_le _, Nat.not_le.mp hfits⟩

end Pieces

/-! ## Sinks -/

/-- How taking pieces ends for the one who hands them over. -/
def Sink.answer {α : Type} (sink : Sink) : Option α → Except Fault α
  | some a => .ok a
  | none => .error sink.fault

namespace Pieces

variable {α : Type} {sink : Sink} {held t : Text}

theorem feed_piece_of_le (h : (held ++ t).byteSize ≤ sink.room) (rest : Unit → Pieces α) :
    ((piece t rest).feed sink.write).run held = ((rest ()).feed sink.write).run (held ++ t) := by
  simp only [feed, bind, ExceptT.bind, ExceptT.mk, ExceptT.run, StateT.bind, Sink.write, if_pos h]
  rfl

theorem feed_piece_of_lt (h : sink.room < (held ++ t).byteSize) (rest : Unit → Pieces α) :
    ((piece t rest).feed sink.write).run held = (.error sink.fault, held) := by
  simp only [feed, bind, ExceptT.bind, ExceptT.mk, ExceptT.run, StateT.bind, Sink.write,
    if_neg (Nat.not_le.mpr h)]
  rfl

/-- Pieces that are handed to a sink are taken as long as there is room behind what it holds. -/
theorem feed_write (sink : Sink) (p : Pieces α) {held : Text} (h : held.byteSize ≤ sink.room) :
    (p.feed sink.write).run held
      = (sink.answer (p.take (sink.room - held.byteSize)).2,
          held ++ (p.take (sink.room - held.byteSize)).1.flatten) := by
  induction p generalizing held with
  | done a =>
      show (Except.ok a, held) = (Except.ok a, held ++ [])
      rw [List.append_nil]
  | piece t rest ih =>
      have hsize : (held ++ t).byteSize = held.byteSize + t.byteSize := Text.byteSize_append held t
      by_cases hfits : t.byteSize ≤ sink.room - held.byteSize
      · have hroom : (held ++ t).byteSize ≤ sink.room := by omega
        rw [feed_piece_of_le hroom, ih () hroom, hsize, Nat.sub_add_eq, take_piece_of_le hfits,
          List.flatten_cons, List.append_assoc]
      · have hover : sink.room < (held ++ t).byteSize := by omega
        rw [feed_piece_of_lt hover, take_piece_of_lt (Nat.not_le.mp hfits)]
        show _ = (Except.error sink.fault, held ++ [])
        rw [List.append_nil]

end Pieces

/-! ## Chunks -/

namespace ChunkTable

variable {t : ChunkTable} {d : Directive}

/-- What is written to an empty sink is what it takes of the expansion. -/
theorem writeOut_eq (name : ChunkName) (indent : Text) (sink : Sink) :
    (t.writeOut d name indent sink.write).run []
      = (failure? (sink.answer ((t.expand d name indent .empty).take sink.room).2),
          ((t.expand d name indent .empty).take sink.room).1.flatten) := by
  have hempty : Text.byteSize [] ≤ sink.room := Nat.zero_le _
  have hfeed := (t.expand d name indent .empty).feed_write sink hempty
  rw [Text.byteSize_nil, Nat.sub_zero, List.nil_append] at hfeed
  rw [writeOut, StateT.run_map]
  exact congrArg (fun p => (failure? p.1, p.2)) hfeed

/-- Where there is room for the text, writing ends as the expansion does. -/
theorem writeOut_of_le {name : ChunkName} {indent : Text} {sink : Sink}
    (h : (t.expand d name indent .empty).text.byteSize ≤ sink.room) :
    (t.writeOut d name indent sink.write).run []
      = (failure? (.ok (t.expand d name indent .empty).value),
          (t.expand d name indent .empty).text) := by
  rw [writeOut_eq, Pieces.take_of_le h]
  rfl

/-- Where there is none, writing ends with the fault of the sink at the first piece that does not
    fit. -/
theorem writeOut_of_lt {name : ChunkName} {indent : Text} {sink : Sink}
    (h : sink.room < (t.expand d name indent .empty).text.byteSize) :
    ∃ taken refused behind,
      (t.expand d name indent .empty).list = taken ++ refused :: behind ∧
      Text.byteSize taken.flatten ≤ sink.room ∧
      sink.room < Text.byteSize (taken.flatten ++ refused) ∧
      (t.writeOut d name indent sink.write).run [] = (some (.io sink.fault), taken.flatten) := by
  obtain ⟨hnone, refused, behind, hlist, hroom, hover⟩ := Pieces.take_of_lt h
  refine ⟨_, refused, behind, hlist, hroom, hover, ?_⟩
  rw [writeOut_eq, hnone]
  rfl

/-- A name that leads to no cycle is expanded to its end, with no chunk left open. -/
theorem value_expand_of_no_cycle {name : ChunkName}
    (h : ∀ a, ReflTransGen t.Refers name a → ¬ TransGen t.Refers a a) (indent : Text) :
    (t.expand d name indent .empty).value = ⟨.empty, none⟩ := by
  have hnone : (t.expand d name indent .empty).value.cycle = none := by
    rw [← Option.not_isSome_iff_eq_none, expand_fails_iff]
    rintro ⟨a, ha, hopen | hcycle⟩
    · exact nomatch hopen
    · exact h a ha hcycle
  have hpath := (unfolds_expand (t := t) (d := d) name indent .empty).path_eq hnone
  cases hvalue : (t.expand d name indent .empty).value with
  | mk path cycle =>
      rw [hvalue] at hnone hpath
      obtain rfl : cycle = none := hnone
      obtain rfl : path = .empty := hpath
      rfl

/-- **Running full is told exactly.**  A name that leads to no cycle is expanded to the same
    pieces for every sink.  Writing them succeeds exactly if there is room for all of
    them, and the sink then holds their text.  Otherwise it fails with the fault of the
    sink, which holds a proper beginning of the text: the pieces before the first one that
    goes beyond the room, and nothing of this one or of those behind it. -/
theorem running_full_is_told (t : ChunkTable) (name : ChunkName)
    (hclear : ∀ a, ReflTransGen t.Refers name a → ¬ TransGen t.Refers a a) (d : Directive)
    (indent : Text) :
    ∃ pieces, t.Unfolds d (.chunk name) indent .empty pieces ⟨.empty, none⟩ ∧
      ∀ sink : Sink, ∃ failure held,
        (t.writeOut d name indent sink.write).run [] = (failure, held) ∧
        (failure = none ↔ Text.byteSize pieces.flatten ≤ sink.room) ∧
        (failure = none → held = pieces.flatten) ∧
        (failure ≠ none → failure = some (.io sink.fault) ∧
          held <+: pieces.flatten ∧ held ≠ pieces.flatten ∧
          ∃ taken refused behind, pieces = taken ++ refused :: behind ∧ held = taken.flatten ∧
            Text.byteSize held ≤ sink.room ∧ sink.room < Text.byteSize (held ++ refused)) := by
  have hends := unfolds_expand (t := t) (d := d) name indent .empty
  have hvalue := value_expand_of_no_cycle (d := d) hclear indent
  rw [hvalue] at hends
  refine ⟨_, hends, fun sink => ?_⟩
  by_cases hfits : (t.expand d name indent .empty).text.byteSize ≤ sink.room
  · refine ⟨_, _, writeOut_of_le hfits, ?_⟩
    rw [hvalue]
    exact ⟨⟨fun _ => hfits, fun _ => rfl⟩, fun _ => rfl, fun hsome => absurd rfl hsome⟩
  · obtain ⟨taken, refused, behind, hlist, hroom, hover, hrun⟩ :=
      writeOut_of_lt (Nat.not_le.mp hfits)
    have hbegins : taken.flatten <+: (t.expand d name indent .empty).list.flatten := by
      rw [hlist, List.flatten_append]
      exact List.prefix_append _ _
    have hproper : taken.flatten ≠ (t.expand d name indent .empty).list.flatten := by
      -- the whole does not fit
      intro heq
      rw [heq] at hroom
      exact hfits hroom
    refine ⟨_, _, hrun, ⟨fun hnone => ?_, fun hle => absurd hle hfits⟩, fun hnone => ?_, fun _ => ?_⟩
    · exact nomatch hnone
    · exact nomatch hnone
    · exact ⟨rfl, hbegins, hproper, taken, refused, behind, hlist, rfl, hroom, hover⟩

/-- A chunk whose first line is longer than its second, and stands in another chunk. -/
def brimming : ChunkTable :=
  let document : Path := ⟨['f']⟩
  [(['a'], 1, ['@', '{', 'b', '}']), (['a'], 2, ['y']), (['b'], 3, ['x', 'x', 'x'])].foldl
    (fun t line => t.addLine ⟨line.1⟩ ⟨⟨document, line.2.1⟩, line.2.2⟩) {}

/-- The second line would have fit where the first did not, and is not written. -/
theorem brimming_runs_full :
    (∀ a, ReflTransGen brimming.Refers ⟨['a']⟩ a → ¬ TransGen brimming.Refers a a) ∧
      (∃ held, (brimming.writeOut .none ⟨['a']⟩ [] (Sink.write ⟨2, .full⟩)).run []
          = (some (.io .full), held) ∧ held <+: ['x', 'x', 'x', '\n', 'y', '\n']) ∧
      (brimming.writeOut .none ⟨['a']⟩ [] (Sink.write ⟨6, .full⟩)).run []
        = (none, ['x', 'x', 'x', '\n', 'y', '\n']) := by
  have hac : brimming.Acyclic := Lattice.findCycle?_ofTable_eq_none_iff.mp (by decide +kernel)
  obtain ⟨pieces, hpieces, hall⟩ :=
    running_full_is_told brimming ⟨['a']⟩ (fun a _ => hac a) .none []
  have hinner : brimming.Unfolds .none (.chunk ⟨['b']⟩) [] ⟨[⟨['a']⟩]⟩ _ _ :=
    .chunk (by decide) rfl (.code rfl .nil)
  have houter : brimming.Unfolds .none (.chunk ⟨['a']⟩) [] .empty _ _ :=
    .chunk (by decide) rfl (.reference rfl hinner (.code rfl .nil))
  obtain ⟨rfl, -⟩ := hpieces.unique houter
  refine ⟨fun a _ => hac a, ?_, ?_⟩
  · obtain ⟨failure, held, hrun, hiff, -, hfull⟩ := hall ⟨2, .full⟩
    have hne : failure ≠ none := fun hnone => absurd (hiff.mp hnone) (by decide)
    obtain ⟨rfl, hbegins, -⟩ := hfull hne
    exact ⟨held, hrun, hbegins⟩
  · obtain ⟨failure, held, hrun, hiff, hheld, -⟩ := hall ⟨6, .full⟩
    have hnone : failure = none := hiff.mpr (by decide)
    rw [hrun, hheld hnone, hnone]
    rfl

end ChunkTable

end Literate
