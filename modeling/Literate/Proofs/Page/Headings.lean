import Literate.Page.Annotation
import Literate.Proofs.Section.Numbering

/-! # Headings with links

    Before a line goes onto a page, the paths of its links are replaced, and if
    it is a heading, the number and the anchor of its section are put into it.
    Neither makes another heading of it: what stands before the first bracket of
    a line stays where it is (`Link.takeWhile_retarget`), and with it the signs
    of a heading and the blank behind them (`Line.heading?_retarget`). -/

namespace Literate

namespace Link

theorem retarget_nil (f : Link → Option Text) : retarget f [] = [] := by
  rw [retarget, segments]
  rfl

/-- A link begins with a bracket, so any other character stays in front. -/
theorem retarget_cons_of_ne (f : Link → Option Text) {c : Char} (hc : c ≠ ']') (rest : Text) :
    retarget f (c :: rest) = c :: retarget f rest := by
  have hnone : at? (c :: rest) = none := by
    rw [at?, Text.after?, if_neg (Ne.symm hc)]
  rw [retarget, segments, hnone]
  rfl

theorem retarget_bracket (f : Link → Option Text) (rest : Text) :
    ∃ more, retarget f (']' :: rest) = ']' :: more := by
  rw [retarget, segments]
  cases at? (']' :: rest) with
  | none => exact ⟨_, rfl⟩
  | some l => exact ⟨_, rfl⟩

variable {p : Char → Bool}

/-- What a line begins with stays, as far as it has no bracket. -/
theorem takeWhile_retarget (hp : p ']' = false) (f : Link → Option Text) (t : Text) :
    (retarget f t).takeWhile p = t.takeWhile p := by
  induction t with
  | nil => rw [retarget_nil]
  | cons c rest ih =>
      by_cases hc : c = ']'
      · subst hc
        obtain ⟨more, hmore⟩ := retarget_bracket f rest
        rw [hmore, List.takeWhile_cons_of_neg (by simp [hp]),
          List.takeWhile_cons_of_neg (by simp [hp])]
      · rw [retarget_cons_of_ne f hc, List.takeWhile_cons, List.takeWhile_cons, ih]

/-- What follows is the same line with its links changed. -/
theorem dropWhile_retarget (hp : p ']' = false) (f : Link → Option Text) (t : Text) :
    (retarget f t).dropWhile p = retarget f (t.dropWhile p) := by
  induction t with
  | nil => rw [retarget_nil, List.dropWhile_nil, retarget_nil]
  | cons c rest ih =>
      by_cases hc : c = ']'
      · subst hc
        obtain ⟨more, hmore⟩ := retarget_bracket f rest
        rw [hmore, List.dropWhile_cons_of_neg (by simp [hp]),
          List.dropWhile_cons_of_neg (by simp [hp]), hmore]
      · rw [retarget_cons_of_ne f hc, List.dropWhile_cons, List.dropWhile_cons, ih]
        split
        · rfl
        · rw [retarget_cons_of_ne f hc]

end Link

namespace Line

/-- A heading with its links changed is a heading of the same level, and no other line becomes
    one. -/
theorem heading?_retarget (f : Link → Option Text) (line : Text) :
    heading? (Link.retarget f line)
      = (heading? line).map fun h => (h.1, Link.retarget f h.2) := by
  have hsign : (']' == '#') = false := by decide
  have hblank : isAsciiBlank ']' = false := by decide
  simp only [heading?]
  rw [Link.takeWhile_retarget hsign, Link.dropWhile_retarget hsign,
    Link.takeWhile_retarget hblank, Link.dropWhile_retarget hblank]
  split <;> rfl

/-- Signs, a blank and a text that does not begin with a blank are a heading. -/
theorem heading?_signs {level : Nat} (h : 1 ≤ level) {c : Char} (hc : isAsciiBlank c = false)
    (text : Text) :
    heading? (List.replicate level '#' ++ ' ' :: c :: text) = some (level, c :: text) := by
  have hsigns : ∀ a ∈ List.replicate level '#', (a == '#') = true := by
    intro a ha
    rw [List.eq_of_mem_replicate ha]
    rfl
  have htake : (List.replicate level '#' ++ ' ' :: c :: text).takeWhile (· == '#')
      = List.replicate level '#' := by
    rw [List.takeWhile_append_of_pos hsigns]
    simp
  have hdrop : (List.replicate level '#' ++ ' ' :: c :: text).dropWhile (· == '#')
      = ' ' :: c :: text := by
    rw [List.dropWhile_append_of_pos hsigns]
    simp
  have hblank : isAsciiBlank ' ' = true := by decide
  obtain ⟨more, rfl⟩ : ∃ more, level = more + 1 := ⟨level - 1, by omega⟩
  simp only [heading?, htake, hdrop, List.takeWhile_cons_of_pos hblank,
    List.dropWhile_cons_of_pos hblank, List.length_replicate]
  simp [hc, List.replicate_succ]

theorem heading?_of_fenceOpen? {line : Text} {name : ChunkName}
    (h : fenceOpen? line = some name) : heading? line = none := by
  obtain ⟨rest, hrest, -⟩ := Option.map_eq_some_iff.mp h
  rw [Text.after?_eq_some_iff.mp hrest]
  rfl

end Line

namespace Document

/-- New paths leave a heading its level. -/
theorem level_retargetLinks (d : Document) (file : Path) (line : Text) :
    (Line.heading? (d.retargetLinks file line)).map Prod.fst
      = (Line.heading? line).map Prod.fst := by
  rw [retargetLinks]
  split
  · rfl
  · rw [Line.heading?_retarget, Option.map_map]
    rfl

/-- A numbered heading is a heading of the level that it had. -/
theorem level_numberedHeading? {line heading : Text} {s : Section}
    (h : numberedHeading? line s = some heading) :
    (Line.heading? heading).map Prod.fst = (Line.heading? line).map Prod.fst := by
  obtain ⟨⟨level, text⟩, hline, rfl⟩ := Option.map_eq_some_iff.mp h
  have htag : " <a name=\"".toList = ' ' :: '<' :: "a name=\"".toList := by simp
  rw [hline]
  dsimp only
  rw [htag]
  simp only [List.append_assoc, List.cons_append]
  rw [Line.heading?_signs (Section.level_of_heading? hline).2 (by decide)]
  rfl

end Document

end Literate
