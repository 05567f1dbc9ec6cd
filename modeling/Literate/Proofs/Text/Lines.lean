import Literate.Text.Basic

/-! # Lines kept in a text

    A document is kept as its lines, each with a line feed, and is cut into
    lines once more when its page is made.  A line has no line feed of its own
    (`newline_notMem_of_mem_lines`), so the cuts fall where they fell before, and
    line by line the second cut gives what the first one gave, less a carriage
    return at the end (`lines_unlines`).  What is kept is the document itself
    exactly if a line feed alone ends every line (`unlines_lines_eq_iff`). -/

namespace Literate.Text

/-- The line less one carriage return at its end. -/
def withoutReturn (line : Text) : Text :=
  if line.getLast? = some '\r' then line.dropLast else line

theorem withoutReturn_cons {c : Char} {line : Text} (h : c ≠ '\r' ∨ line ≠ []) :
    withoutReturn (c :: line) = c :: withoutReturn line := by
  cases line with
  | nil =>
      have hc : c ≠ '\r' := h.resolve_right fun hne => hne rfl
      rw [withoutReturn, withoutReturn, if_neg (by simpa using hc), if_neg (by simp)]
  | cons c' line =>
      rw [withoutReturn, withoutReturn, List.getLast?_cons_cons]
      split <;> rfl

/-- Lines are cut at every line feed. -/
theorem newline_notMem_of_mem_lines {t line : Text} (h : line ∈ t.lines) : '\n' ∉ line := by
  fun_induction lines t generalizing line with
  | case1 => cases h
  | case2 rest ih =>
      rcases List.mem_cons.mp h with rfl | h
      · exact List.not_mem_nil
      · exact ih h
  | case3 rest ih =>
      rcases List.mem_cons.mp h with rfl | h
      · exact List.not_mem_nil
      · exact ih h
  | case4 c rest hnewline _ hnone ih =>
      rw [List.mem_singleton.mp h]
      simpa using Ne.symm hnewline
  | case5 c rest hnewline _ first more hsome ih =>
      rw [hsome] at ih
      rcases List.mem_cons.mp h with rfl | h
      · have hfirst : '\n' ∉ first := ih List.mem_cons_self
        simpa [hfirst] using Ne.symm hnewline
      · exact ih (List.mem_cons_of_mem _ h)

/-- The first line of a text is what stands before its first line feed. -/
theorem lines_append_newline {line : Text} (h : '\n' ∉ line) (rest : Text) :
    lines (line ++ '\n' :: rest) = withoutReturn line :: lines rest := by
  induction line with
  | nil => rfl
  | cons c line ih =>
      have hc : c ≠ '\n' := fun hc => h (hc ▸ List.mem_cons_self)
      have hline : '\n' ∉ line := fun hline => h (List.mem_cons_of_mem _ hline)
      have ih := ih hline
      by_cases hreturn : c = '\r' ∧ line = []
      · obtain ⟨rfl, rfl⟩ := hreturn
        rfl
      · -- `c` stands before a character that is no line feed, or is no carriage return
        have hcut : lines (c :: (line ++ '\n' :: rest))
            = (c :: withoutReturn line) :: lines rest := by
          rw [lines]
          · rw [ih]
          · exact hc
          · intro rest' hc' heq
            cases line with
            | nil => exact hreturn ⟨hc', rfl⟩
            | cons c' line =>
                rw [List.cons_append, List.cons.injEq] at heq
                exact hline (heq.1 ▸ List.mem_cons_self)
        rw [List.cons_append, hcut, withoutReturn_cons]
        by_cases hc' : c = '\r'
        · exact Or.inr fun hnil => hreturn ⟨hc', hnil⟩
        · exact Or.inl hc'

theorem unlines_cons (line : Text) (ls : List Text) :
    unlines (line :: ls) = line ++ '\n' :: unlines ls := by
  rw [unlines, List.flatMap_cons, List.append_assoc]
  rfl

/-- **Lines survive their keeping.**  Lines kept with their line feeds are cut into as many
    lines, in the same places. -/
theorem lines_unlines {ls : List Text} (h : ∀ line ∈ ls, '\n' ∉ line) :
    lines (unlines ls) = ls.map withoutReturn := by
  induction ls with
  | nil => rfl
  | cons line ls ih =>
      rw [unlines_cons, lines_append_newline (h line List.mem_cons_self),
        ih fun l hl => h l (List.mem_cons_of_mem _ hl), List.map_cons]

/-! ## Lines and the text they come from -/

/-- Only the empty text has no lines. -/
theorem lines_eq_nil_iff {t : Text} : lines t = [] ↔ t = [] := by
  fun_cases lines t <;> simp

/-- No line of the text is without a line feed at its end. -/
def Ended (t : Text) : Prop :=
  t = [] ∨ t.getLast? = some '\n'

theorem ended_cons_iff {c : Char} {t : Text} :
    Ended (c :: t) ↔ (t = [] ∧ c = '\n') ∨ (t ≠ [] ∧ Ended t) := by
  cases t with
  | nil => simp [Ended]
  | cons c' t => simp [Ended]

theorem return_infix_cons_iff {c : Char} {t : Text} :
    ['\r', '\n'] <:+: c :: t ↔ (c = '\r' ∧ ['\n'] <+: t) ∨ ['\r', '\n'] <:+: t := by
  rw [List.infix_cons_iff, List.cons_prefix_cons, eq_comm]

/-- The lines of a text, kept with line feeds, are the text again exactly if a line feed alone ends
    each of them. -/
theorem unlines_lines_eq_iff {t : Text} :
    unlines (lines t) = t ↔ Ended t ∧ ¬ ['\r', '\n'] <:+: t := by
  fun_induction lines t with
  | case1 => simp [unlines, Ended]
  | case2 rest ih =>
      rw [unlines_cons, List.nil_append, List.cons.injEq, ih, ended_cons_iff,
        return_infix_cons_iff]
      by_cases hrest : rest = []
      · simp [hrest, Ended]
      · simp [hrest]
  | case3 rest ih =>
      -- the carriage return is gone
      rw [unlines_cons, return_infix_cons_iff]
      simp
  | case4 c rest hnewline hreturn hnone ih =>
      obtain rfl := lines_eq_nil_iff.mp hnone
      have hc : c ≠ '\n' := hnewline
      simp [unlines, ended_cons_iff, hc]
  | case5 c rest hnewline hreturn line more hsome ih =>
      have hrest : rest ≠ [] := by
        rintro rfl
        cases hsome
      have hfirst : ¬ (c = '\r' ∧ ['\n'] <+: rest) := by
        rintro ⟨hc, behind, hbehind⟩
        exact hreturn behind hc hbehind.symm
      have hkept : unlines ((c :: line) :: more) = c :: unlines (lines rest) := by
        rw [hsome, unlines_cons, unlines_cons]
        rfl
      rw [hkept, List.cons.injEq, ih, ended_cons_iff, return_infix_cons_iff]
      simp [hrest, hfirst]

end Literate.Text
