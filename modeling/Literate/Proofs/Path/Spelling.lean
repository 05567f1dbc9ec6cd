import Literate.Path.Lexical

/-! # Components and spellings

    The components of a path are read off its spelling.  This module says what
    is read off the spellings that the library makes: a path joined to another
    has the components of both (`Path.components_join`), components put together
    are the components of the path that they make (`Path.components_ofComponents`),
    and a path written as a link is read as the same path
    (`Path.components_toLink`). -/

namespace Literate

namespace Text

variable {sep : Char}

theorem splitOn_ne_nil (sep : Char) (t : Text) : splitOn sep t ≠ [] := by
  cases t with
  | nil => exact List.cons_ne_nil _ _
  | cons c t =>
      rw [splitOn]
      split
      · exact List.cons_ne_nil _ _
      · split <;> exact List.cons_ne_nil _ _

/-- No part has a separator in it. -/
theorem notMem_of_mem_splitOn {t part : Text} (h : part ∈ splitOn sep t) : sep ∉ part := by
  induction t generalizing part with
  | nil =>
      rw [List.mem_singleton.mp h]
      exact List.not_mem_nil
  | cons c t ih =>
      rw [splitOn] at h
      split at h
      · rcases List.mem_cons.mp h with rfl | h
        · exact List.not_mem_nil
        · exact ih h
      · next hc =>
          have hcons : ∀ part ∈ splitOn sep t, sep ∉ c :: part := by
            intro part hpart hmem
            rcases List.mem_cons.mp hmem with heq | hmem
            · exact hc heq.symm
            · exact ih hpart hmem
          split at h
          · next hnil => exact absurd hnil (splitOn_ne_nil sep t)
          · next first more hparts =>
              rw [hparts] at ih hcons
              rcases List.mem_cons.mp h with rfl | h
              · exact hcons first List.mem_cons_self
              · exact ih (List.mem_cons_of_mem _ h)

/-- A separator divides the parts before it from those behind it. -/
theorem splitOn_append (sep : Char) (s t : Text) :
    splitOn sep (s ++ sep :: t) = splitOn sep s ++ splitOn sep t := by
  induction s with
  | nil => simp [splitOn]
  | cons c s ih =>
      rw [List.cons_append, splitOn, splitOn, ih]
      split
      · rfl
      · cases hparts : splitOn sep s with
        | nil => exact absurd hparts (splitOn_ne_nil sep s)
        | cons first more => rfl

theorem splitOn_of_notMem {t : Text} (h : sep ∉ t) : splitOn sep t = [t] := by
  induction t with
  | nil => rfl
  | cons c t ih =>
      have hc : c ≠ sep := fun hc => h (hc ▸ List.mem_cons_self)
      rw [splitOn, if_neg hc, ih fun ht => h (List.mem_cons_of_mem _ ht)]

theorem join_cons_cons (sep s t : Text) (parts : List Text) :
    join sep (s :: t :: parts) = s ++ (sep ++ join sep (t :: parts)) := by
  rw [join, join, List.intercalate_cons_cons, List.append_assoc]

theorem head?_splitOn_append (sep : Char) (s t : Text) :
    (splitOn sep (s ++ sep :: t)).head? = (splitOn sep s).head? := by
  rw [splitOn_append]
  cases hparts : splitOn sep s with
  | nil => exact absurd hparts (splitOn_ne_nil sep s)
  | cons first more => rfl

end Text

/-! ## Steps -/

namespace Component

/-- A component that a part between slashes can spell. -/
def IsStep (c : Component) : Prop :=
  '/' ∉ c.text ∧ ofPart? c.text = some c

theorem isStep_up : IsStep .up :=
  ⟨by simp [text], rfl⟩

theorem text_of_ofPart? {t : Text} {c : Component} (h : ofPart? t = some c) : c.text = t := by
  rw [ofPart?.eq_def] at h
  split at h
  · cases h
  · cases h
  · rw [← Option.some.inj h]
    rfl
  · rw [← Option.some.inj h]
    rfl

theorem isStep_of_ofPart? {t : Text} {c : Component} (hslash : '/' ∉ t)
    (h : ofPart? t = some c) : c.IsStep := by
  rw [IsStep, text_of_ofPart? h]
  exact ⟨hslash, h⟩

theorem IsStep.cases {c : Component} (h : c.IsStep) : c = .up ∨ ∃ t, c = .name t := by
  obtain ⟨-, h⟩ := h
  cases c with
  | root => exact absurd h (by decide)
  | here => cases h
  | up => exact Or.inl rfl
  | name t => exact Or.inr ⟨t, rfl⟩

theorem IsStep.text_ne_nil {c : Component} (h : c.IsStep) : c.text ≠ [] := by
  intro hnil
  have hpart := h.2
  rw [hnil] at hpart
  cases hpart

theorem IsStep.text_ne_here {c : Component} (h : c.IsStep) : c.text ≠ ['.'] := by
  intro hhere
  have hpart := h.2
  rw [hhere] at hpart
  cases hpart

end Component

namespace Path

open Component

/-- The components that the parts of a spelling stand for, wherever it starts. -/
def steps (t : Text) : List Component :=
  (t.splitOn '/').filterMap ofPart?

theorem steps_append (s t : Text) : steps (s ++ '/' :: t) = steps s ++ steps t := by
  rw [steps, Text.splitOn_append, List.filterMap_append]
  rfl

theorem isStep_of_mem_steps {t : Text} {c : Component} (h : c ∈ steps t) : c.IsStep := by
  obtain ⟨part, hpart, hc⟩ := List.mem_filterMap.mp h
  exact isStep_of_ofPart? (Text.notMem_of_mem_splitOn hpart) hc

theorem steps_text {c : Component} (h : c.IsStep) : steps c.text = [c] := by
  rw [steps, Text.splitOn_of_notMem h.1, List.filterMap_cons, h.2]
  rfl

/-- Steps written with slashes between them are read as those steps, the first of them
    first. -/
theorem steps_join {cs : List Component} (h : ∀ c ∈ cs, c.IsStep) :
    steps (Text.join ['/'] (cs.map text)) = cs ∧
      ((Text.join ['/'] (cs.map text)).splitOn '/').head? = some ((cs.map text).head?.getD []) := by
  induction cs with
  | nil => exact ⟨rfl, rfl⟩
  | cons c cs ih =>
      have hc := h c List.mem_cons_self
      cases cs with
      | nil =>
          have hjoin : Text.join ['/'] [c.text] = c.text := by simp [Text.join]
          rw [List.map_singleton, hjoin, steps_text hc, Text.splitOn_of_notMem hc.1]
          exact ⟨rfl, rfl⟩
      | cons c' cs =>
          obtain ⟨ih, -⟩ := ih fun c' hc' => h c' (List.mem_cons_of_mem _ hc')
          rw [List.map_cons] at ih
          rw [List.map_cons, List.map_cons, Text.join_cons_cons, List.singleton_append,
            steps_append, steps_text hc, ih, Text.head?_splitOn_append,
            Text.splitOn_of_notMem hc.1]
          exact ⟨rfl, rfl⟩

/-! ## Components -/

theorem map_fst_markOf? (pos : Nat) (parts : List Text) :
    ((ends pos parts).filterMap markOf?).map Prod.fst = parts.filterMap ofPart? := by
  induction parts generalizing pos with
  | nil => rfl
  | cons part parts ih =>
      rw [ends, List.filterMap_cons, List.filterMap_cons, ← ih (pos + part.length + 1), markOf?]
      cases ofPart? part <;> rfl

/-- An absolute path has the root and its steps. -/
theorem components_of_absolute {p : Path} (h : p.isAbsolute = true) :
    p.components = .root :: steps p.spelling := by
  rw [components, marks, if_pos h, List.map_cons, map_fst_markOf?]
  rfl

/-- A relative path has its steps, behind a dot if it begins with one. -/
theorem components_of_relative {p : Path} (h : p.isAbsolute = false) :
    p.components
      = (if (p.spelling.splitOn '/').head? = some ['.'] then [.here] else [])
        ++ steps p.spelling := by
  have habs : ¬ p.isAbsolute = true := by rw [h]; exact Bool.false_ne_true
  rw [components, marks, if_neg habs, steps]
  cases hparts : p.spelling.splitOn '/' with
  | nil => exact absurd hparts (Text.splitOn_ne_nil '/' _)
  | cons part parts =>
      by_cases hhere : part = ['.']
      · subst hhere
        rw [List.head?_cons, if_pos rfl]
        show (Component.here :: ((ends _ parts).filterMap markOf?).map Prod.fst) = _
        rw [map_fst_markOf?]
        rfl
      · rw [List.head?_cons, if_neg fun heq => hhere (Option.some.inj heq), List.nil_append,
          ← map_fst_markOf? 0]
        split
        · next e rest heq =>
            have hfirst := congrArg Prod.fst (List.cons.inj heq).1
            exact absurd hfirst hhere
        · rfl

theorem not_isAbsolute_of_step {c : Component} (h : c.IsStep) (rest : Text) :
    (⟨c.text ++ rest⟩ : Path).isAbsolute = false := by
  cases htext : c.text with
  | nil => exact absurd htext h.text_ne_nil
  | cons a t =>
      have ha : a ≠ '/' := fun ha => h.1 (htext ▸ ha ▸ List.mem_cons_self)
      simpa [isAbsolute] using ha

/-- Steps written with slashes between them spell the relative path of those steps. -/
theorem components_steps {cs : List Component} (h : ∀ c ∈ cs, c.IsStep) :
    (⟨Text.join ['/'] (cs.map text)⟩ : Path).isAbsolute = false ∧
      (⟨Text.join ['/'] (cs.map text)⟩ : Path).components = cs := by
  have hrelative : (⟨Text.join ['/'] (cs.map text)⟩ : Path).isAbsolute = false := by
    cases cs with
    | nil => rfl
    | cons c cs =>
        have hc := h c List.mem_cons_self
        obtain ⟨rest, hrest⟩ : ∃ rest, Text.join ['/'] ((c :: cs).map text) = c.text ++ rest := by
          cases cs with
          | nil => exact ⟨[], by simp [Text.join]⟩
          | cons c' cs => exact ⟨_, Text.join_cons_cons _ _ _ _⟩
        rw [hrest]
        exact not_isAbsolute_of_step hc rest
  obtain ⟨hsteps, hfirst⟩ := steps_join h
  refine ⟨hrelative, ?_⟩
  rw [components_of_relative hrelative, hsteps, hfirst, if_neg]
  · rfl
  · -- a dot alone is no step
    intro heq
    have heq := Option.some.inj heq
    cases cs with
    | nil => cases heq
    | cons c cs => exact (h c List.mem_cons_self).text_ne_here heq

/-- A relative path is joined behind a slash, which may be there already. -/
theorem join_relative {p q : Path} (hp : p.spelling ≠ []) (hq : q.isAbsolute = false) :
    ∃ s, (p.join q).spelling = s ++ '/' :: q.spelling ∧
      (p.spelling = s ∨ p.spelling = s ++ ['/']) := by
  have hempty : p.spelling.isEmpty = false := by
    rw [Bool.eq_false_iff]
    exact fun hnil => hp (List.isEmpty_iff.mp hnil)
  rw [join, hq, if_neg Bool.false_ne_true, hempty, Bool.false_or]
  by_cases hlast : p.spelling.getLast? = some '/'
  · rw [if_pos (beq_iff_eq.mpr hlast)]
    obtain ⟨s, hs⟩ := List.getLast?_eq_some_iff.mp hlast
    refine ⟨s, ?_, Or.inr hs⟩
    rw [hs, List.append_assoc]
    rfl
  · rw [if_neg fun heq => hlast (beq_iff_eq.mp heq)]
    exact ⟨p.spelling, rfl, Or.inl rfl⟩

/-- The components of a path with a relative one behind it are those of the path and the
    steps of the other. -/
theorem components_join {p q : Path} (hp : p.spelling ≠ []) (hq : q.isAbsolute = false) :
    (p.join q).components = p.components ++ steps q.spelling := by
  obtain ⟨s, hspelling, hs⟩ := join_relative hp hq
  have hsteps : steps p.spelling = steps s := by
    rcases hs with hs | hs
    · rw [hs]
    · rw [hs, steps_append]
      exact List.append_nil _
  have hfirst : (p.spelling.splitOn '/').head? = (s.splitOn '/').head? := by
    rcases hs with hs | hs
    · rw [hs]
    · rw [hs, Text.head?_splitOn_append]
  have habsolute : (p.join q).isAbsolute = p.isAbsolute := by
    rw [isAbsolute, isAbsolute, hspelling]
    cases s with
    | nil =>
        rcases hs with hs | hs
        · exact absurd hs hp
        · rw [hs]
          rfl
    | cons c s => rcases hs with hs | hs <;> rw [hs] <;> rfl
  cases hp' : p.isAbsolute with
  | true =>
      rw [components_of_absolute (habsolute.trans hp'), components_of_absolute hp', hspelling,
        steps_append, hsteps]
      rfl
  | false =>
      rw [components_of_relative (habsolute.trans hp'), components_of_relative hp', hspelling,
        steps_append, hsteps, Text.head?_splitOn_append, hfirst, List.append_assoc]

/-- One step more is one component more. -/
theorem components_join_step (p : Path) {c : Component} (h : c.IsStep) :
    (p.join ⟨c.text⟩).components = p.components ++ [c] := by
  have hrelative : (⟨c.text⟩ : Path).isAbsolute = false := by
    have := not_isAbsolute_of_step h []
    rwa [List.append_nil] at this
  by_cases hp : p.spelling = []
  · have hjoin : p.join ⟨c.text⟩ = ⟨c.text⟩ := by
      rw [join, hrelative, hp]
      rfl
    have hsingle : ∀ c' ∈ [c], c'.IsStep := by simpa using h
    have hsteps := (components_steps hsingle).2
    have hnone : p.components = [] := by
      obtain ⟨spelling⟩ := p
      have hp : spelling = [] := hp
      rw [hp]
      rfl
    have htext : Text.join ['/'] [c.text] = c.text := by simp [Text.join]
    rw [List.map_singleton, htext] at hsteps
    rw [hjoin, hsteps, hnone]
    rfl
  · rw [components_join hp hrelative, steps_text h]

theorem components_foldl_join {cs : List Component} (h : ∀ c ∈ cs, c.IsStep) (p : Path) :
    (cs.foldl (fun p c => p.join ⟨c.text⟩) p).components = p.components ++ cs := by
  induction cs generalizing p with
  | nil => exact (List.append_nil _).symm
  | cons c cs ih =>
      rw [List.foldl_cons, ih (fun c' hc' => h c' (List.mem_cons_of_mem _ hc')),
        components_join_step p (h c List.mem_cons_self), List.append_assoc]
      rfl

/-- Steps put together are the components of the path they make. -/
theorem components_ofComponents {cs : List Component} (h : ∀ c ∈ cs, c.IsStep) :
    (ofComponents cs).components = cs :=
  components_foldl_join h empty

/-- The root starts afresh, whatever stands before it. -/
theorem components_ofComponents_root (before : List Component) {cs : List Component}
    (h : ∀ c ∈ cs, c.IsStep) :
    (ofComponents (before ++ .root :: cs)).components = .root :: cs := by
  rw [ofComponents, List.foldl_append, List.foldl_cons]
  exact components_foldl_join h _

/-- A link is read as the path it was written for, if that has steps only. -/
theorem components_toLink {p : Path} (h : ∀ c ∈ p.components, c.IsStep) :
    (⟨p.toLink⟩ : Path).isAbsolute = false ∧ steps p.toLink = p.components :=
  ⟨(components_steps h).1, (steps_join h).1⟩

/-- The same for an absolute path; its link begins with two slashes, if it has a step. -/
theorem components_toLink_root {p : Path} {cs : List Component} (hp : p.components = .root :: cs)
    (h : ∀ c ∈ cs, c.IsStep) :
    (⟨p.toLink⟩ : Path).isAbsolute = true ∧ (⟨p.toLink⟩ : Path).components = p.components := by
  obtain ⟨rest, hrest, hsteps⟩ : ∃ rest, p.toLink = '/' :: rest ∧ steps ('/' :: rest) = cs := by
    rw [toLink, hp, List.map_cons]
    cases cs with
    | nil => exact ⟨[], rfl, rfl⟩
    | cons c cs =>
        rw [List.map_cons, Text.join_cons_cons]
        refine ⟨_, rfl, ?_⟩
        have hslash := steps_append [] ('/' :: Text.join ['/'] ((c :: cs).map text))
        have hslash' := steps_append [] (Text.join ['/'] ((c :: cs).map text))
        rw [(steps_join h).1] at hslash'
        exact hslash.trans hslash'
  have habsolute : (⟨p.toLink⟩ : Path).isAbsolute = true := by rw [hrest]; rfl
  refine ⟨habsolute, ?_⟩
  rw [components_of_absolute habsolute, hp]
  exact congrArg _ (hrest ▸ hsteps)

end Path

end Literate
