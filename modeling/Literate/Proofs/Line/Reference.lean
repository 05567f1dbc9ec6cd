import Literate.Line

/-! # How references are written

    A reader of references trims a line in three places: the blanks before the
    mark, those behind the closing brace, and those around the name.  Said without
    a reader, a line is a reference if it is made up of these parts in this
    order (`Reference.Spells`).

    * Trimming takes blanks away from a text that begins and ends with something
      else (`Text.trim_between`), and gives such a text if it gives one at all
      (`Text.bare_trim`).
    * So a line is read as a reference exactly if it spells one
      (`Line.reference?_eq_some_iff`), and there is no choice which: where a part
      ends and the next begins shows in what is blank, whatever braces and marks
      there are in the name.
    * Blanks in front of a line make a reference of it only if it was one
      (`Line.reference?_append_eq_none_iff`).

    The name behind a fence is trimmed in the same way, so what a fence can define a
    reference can name. -/

namespace Literate

namespace Text

/-- A text that is not empty and neither begins nor ends with a blank. -/
structure Bare (t : Text) : Prop where
  ne_nil : t ≠ []
  begins : ∀ c, t.head? = some c → isBlank c = false
  ends : ∀ c, t.getLast? = some c → isBlank c = false

/-! ## Trimming -/

/-- Blanks in front of a text come in front of its indentation. -/
theorem indent_append {blanks : Text} (h : blanks.all isBlank = true) (t : Text) :
    indent (blanks ++ t) = blanks ++ indent t :=
  List.takeWhile_append_of_pos (List.all_eq_true.mp h)

theorem trimStart_append {blanks : Text} (h : blanks.all isBlank = true) (t : Text) :
    trimStart (blanks ++ t) = trimStart t :=
  List.dropWhile_append_of_pos (List.all_eq_true.mp h)

theorem trimStart_eq_self {t : Text} (h : ∀ c, t.head? = some c → isBlank c = false) :
    trimStart t = t := by
  cases t with
  | nil => rfl
  | cons c t =>
      have hc : ¬ isBlank c = true := by
        rw [h c rfl]
        exact Bool.false_ne_true
      exact List.dropWhile_cons_of_neg hc

theorem isBlank_of_head?_trimStart {t : Text} {c : Char} (h : t.trimStart.head? = some c) :
    isBlank c = false := by
  have hhead := List.head?_dropWhile_not isBlank t
  rw [trimStart] at h
  rw [h] at hhead
  exact hhead

/-- The end of a text is trimmed like its beginning, read backwards. -/
theorem trimEnd_eq (t : Text) : trimEnd t = (trimStart t.reverse).reverse :=
  rfl

theorem trimEnd_append (t : Text) {blanks : Text} (h : blanks.all isBlank = true) :
    trimEnd (t ++ blanks) = trimEnd t := by
  have hreverse : blanks.reverse.all isBlank = true := by rw [List.all_reverse, h]
  rw [trimEnd_eq, List.reverse_append, trimStart_append hreverse, ← trimEnd_eq]

theorem trimEnd_eq_self {t : Text} (h : ∀ c, t.getLast? = some c → isBlank c = false) :
    trimEnd t = t := by
  have hreverse : ∀ c, t.reverse.head? = some c → isBlank c = false := by
    intro c hc
    rw [List.head?_reverse] at hc
    exact h c hc
  rw [trimEnd_eq, trimStart_eq_self hreverse, List.reverse_reverse]

theorem isBlank_of_getLast?_trimEnd {t : Text} {c : Char} (h : t.trimEnd.getLast? = some c) :
    isBlank c = false := by
  rw [trimEnd_eq, List.getLast?_reverse] at h
  exact isBlank_of_head?_trimStart h

/-- What is trimmed off at the end is blank. -/
theorem exists_of_trimEnd (t : Text) :
    ∃ blanks : Text, blanks.all isBlank = true ∧ t = t.trimEnd ++ blanks := by
  refine ⟨(indent t.reverse).reverse, ?_, ?_⟩
  · rw [List.all_reverse]
    exact List.all_takeWhile
  · rw [trimEnd_eq, ← List.reverse_append, indent, trimStart, List.takeWhile_append_dropWhile,
      List.reverse_reverse]

/-- Blanks around a text that begins and ends with something else are trimmed off. -/
theorem trim_between {before t after : Text} (hbefore : before.all isBlank = true) (ht : t.Bare)
    (hafter : after.all isBlank = true) : trim (before ++ t ++ after) = t := by
  have hstart : ∀ c, (t ++ after).head? = some c → isBlank c = false := by
    obtain ⟨first, rest, rfl⟩ := List.exists_cons_of_ne_nil ht.ne_nil
    exact ht.begins
  rw [trim, List.append_assoc, trimStart_append hbefore, trimStart_eq_self hstart,
    trimEnd_append t hafter, trimEnd_eq_self ht.ends]

theorem exists_of_trim (t : Text) :
    ∃ before after : Text, before.all isBlank = true ∧ after.all isBlank = true ∧
      t = before ++ t.trim ++ after := by
  obtain ⟨after, hafter, hend⟩ := exists_of_trimEnd t.trimStart
  refine ⟨t.indent, after, List.all_takeWhile, hafter, ?_⟩
  rw [trim, List.append_assoc, ← hend]
  exact List.takeWhile_append_dropWhile.symm

/-- A text that is left by trimming is bare. -/
theorem bare_trim {t : Text} (h : t.trim ≠ []) : t.trim.Bare := by
  refine ⟨h, ?_, fun c => isBlank_of_getLast?_trimEnd⟩
  intro c hc
  obtain ⟨after, -, hend⟩ := exists_of_trimEnd t.trimStart
  refine isBlank_of_head?_trimStart (t := t) ?_
  rw [hend, List.head?_append]
  exact Option.or_eq_some_iff.mpr (Or.inl hc)

end Text

/-- How a reference is written: blanks, the mark, the name between braces with blanks around it,
    and blanks behind the closing brace. -/
def Reference.Spells (ref : Reference) (line : Text) : Prop :=
  ∃ before after behind : Text,
    line = ref.indent ++ referenceMark ++ before ++ ref.name.text ++ after ++ ['}'] ++ behind ∧
    ref.indent.all isBlank = true ∧ before.all isBlank = true ∧ ref.name.text.Bare ∧
    after.all isBlank = true ∧ behind.all isBlank = true

namespace Line

/-! ## Reading -/

/-- The name in the body of a reference. -/
theorem referenceName?_eq_some_iff {body : Text} {name : ChunkName} :
    referenceName? body = some name ↔
      ∃ before after behind : Text, body = before ++ name.text ++ after ++ ['}'] ++ behind ∧
        before.all isBlank = true ∧ name.text.Bare ∧ after.all isBlank = true ∧
        behind.all isBlank = true := by
  constructor
  · intro h
    obtain ⟨behind, hbehind, hbody⟩ := Text.exists_of_trimEnd body
    simp only [referenceName?] at h
    split at h
    · next hbrace =>
        -- the closing brace is the last brace of the line, so braces in the name stay in it
        obtain ⟨inner, hinner⟩ := List.getLast?_eq_some_iff.mp hbrace
        rw [hinner, List.dropLast_concat] at h
        split at h
        · cases h
        · next hname =>
            obtain rfl := Option.some.inj h
            obtain ⟨before, after, hbefore, hafter, htrim⟩ := Text.exists_of_trim inner
            have hbare : (Text.trim inner).Bare :=
              Text.bare_trim fun hnil => hname (List.isEmpty_iff.mpr hnil)
            refine ⟨before, after, behind, ?_, hbefore, hbare, hafter, hbehind⟩
            rw [← htrim, ← hinner]
            exact hbody
    · cases h
  · rintro ⟨before, after, behind, rfl, hbefore, hname, hafter, hbehind⟩
    have hbrace : ∀ c, (before ++ name.text ++ after ++ ['}']).getLast? = some c →
        isBlank c = false := by
      intro c hc
      rw [List.getLast?_concat] at hc
      obtain rfl := Option.some.inj hc
      rfl
    simp only [referenceName?]
    rw [Text.trimEnd_append _ hbehind, Text.trimEnd_eq_self hbrace, List.getLast?_concat,
      if_pos rfl, List.dropLast_concat, Text.trim_between hbefore hname hafter, if_neg]
    exact fun hnil => hname.ne_nil (List.isEmpty_iff.mp hnil)

/-- The mark begins with a character that is not blank, so the blanks of a line end there. -/
theorem indent_mark {blanks : Text} (h : blanks.all isBlank = true) (rest : Text) :
    Text.indent (blanks ++ (referenceMark ++ rest)) = blanks ∧
      Text.trimStart (blanks ++ (referenceMark ++ rest)) = referenceMark ++ rest := by
  constructor
  · rw [Text.indent_append h]
    exact List.append_nil blanks
  · rw [Text.trimStart_append h]
    rfl

/-- A line is read as the reference that it spells. -/
theorem reference?_eq_some_iff {line : Text} {ref : Reference} :
    reference? line = some ref ↔ ref.Spells line := by
  constructor
  · intro h
    obtain ⟨body, hbody, h⟩ := Option.bind_eq_some_iff.mp h
    obtain ⟨name, hname, rfl⟩ := Option.map_eq_some_iff.mp h
    obtain ⟨before, after, behind, rfl, hbefore, hbare, hafter, hbehind⟩ :=
      referenceName?_eq_some_iff.mp hname
    have hline : line.indent ++ line.trimStart = line := List.takeWhile_append_dropWhile
    rw [Text.after?_eq_some_iff.mp hbody] at hline
    refine ⟨before, after, behind, ?_, List.all_takeWhile, hbefore, hbare, hafter, hbehind⟩
    simp only [List.append_assoc] at hline ⊢
    exact hline.symm
  · rintro ⟨before, after, behind, rfl, hindent, hbefore, hbare, hafter, hbehind⟩
    have hname : referenceName? (before ++ ref.name.text ++ after ++ ['}'] ++ behind)
        = some ref.name :=
      referenceName?_eq_some_iff.mpr
        ⟨before, after, behind, rfl, hbefore, hbare, hafter, hbehind⟩
    obtain ⟨hblanks, hstart⟩ := indent_mark hindent
      (before ++ ref.name.text ++ after ++ ['}'] ++ behind)
    simp only [List.append_assoc] at hname hblanks hstart ⊢
    rw [reference?, hblanks, hstart, Text.after?_eq_some_iff.mpr rfl, Option.bind_some, hname]
    rfl

/-- Blanks in front of a line do not change whether it is a reference. -/
theorem reference?_append_eq_none_iff {blanks : Text} (h : blanks.all isBlank = true)
    (line : Text) : reference? (blanks ++ line) = none ↔ reference? line = none := by
  rw [reference?, reference?, Text.trimStart_append h]
  simp only [Option.bind_eq_none_iff, Option.map_eq_none_iff]

/-- The name behind a fence is trimmed. -/
theorem bare_of_fenceOpen? {line : Text} {name : ChunkName} (h : fenceOpen? line = some name)
    (hname : name.text ≠ []) : name.text.Bare := by
  obtain ⟨rest, -, rfl⟩ := Option.map_eq_some_iff.mp h
  exact Text.bare_trim hname

/-- **References are read as they are written.**  A line is read as a reference exactly if it
    spells that reference, and no line spells two.  Every name that is not empty and
    that a fence can open a chunk with can be referred to, at every
    indentation, whatever it is made of. -/
theorem references_are_read_as_written :
    (∀ (line : Text) (ref : Reference), reference? line = some ref ↔ ref.Spells line) ∧
    (∀ (line : Text) (ref ref' : Reference), ref.Spells line → ref'.Spells line → ref = ref') ∧
    ∀ (line : Text) (name : ChunkName), fenceOpen? line = some name → name.text ≠ [] →
      ∀ indent : Text, indent.all isBlank = true →
        reference? (indent ++ referenceMark ++ name.text ++ ['}']) = some ⟨indent, name⟩ := by
  refine ⟨fun line ref => reference?_eq_some_iff, ?_, ?_⟩
  · intro line ref ref' h h'
    rw [← reference?_eq_some_iff] at h h'
    exact Option.some.inj (h.symm.trans h')
  · intro line name hfence hname indent hindent
    refine reference?_eq_some_iff.mpr
      ⟨[], [], [], ?_, hindent, rfl, bare_of_fenceOpen? hfence hname, rfl, rfl⟩
    simp only [List.append_assoc, List.append_nil]

/-- A name with a brace, a mark and a blank in it, from the fence to its references. -/
theorem awkward_name_is_read :
    fenceOpen? "``` a\x7d@\x7bb c ".toList = some ⟨"a\x7d@\x7bb c".toList⟩ ∧
    reference? "\t@\x7ba\x7d@\x7bb c\x7d".toList = some ⟨['\t'], ⟨"a\x7d@\x7bb c".toList⟩⟩ ∧
    (⟨['\t'], ⟨"a\x7d@\x7bb c".toList⟩⟩ : Reference).Spells
      "\t@\x7b  a\x7d@\x7bb c \x7d ".toList := by
  have hfence : fenceOpen? "``` a\x7d@\x7bb c ".toList = some ⟨"a\x7d@\x7bb c".toList⟩ := by
    decide +kernel
  have hread : reference? "\t@\x7b  a\x7d@\x7bb c \x7d ".toList
      = some ⟨['\t'], ⟨"a\x7d@\x7bb c".toList⟩⟩ := by decide +kernel
  obtain ⟨hspells, -, hdefined⟩ := references_are_read_as_written
  exact ⟨hfence, hdefined _ _ hfence (by decide +kernel) ['\t'] rfl, (hspells _ _).mp hread⟩

end Line

end Literate
