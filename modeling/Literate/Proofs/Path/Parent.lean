import Literate.Proofs.Path.Extension

/-! # The directory of a path

    The parent of a path is a cut of its spelling, and so keeps whatever the
    spelling had: double slashes, dots, and `..` that could be folded.  Cut where
    a component ends, a spelling still has the components up to there
    (`Path.marks_take`), so the parent has all components but the last
    (`Path.components_parent`), and settles to what the path settles to without
    its name (`Path.settled_eq_cons`). -/

namespace Literate

namespace Text

variable {sep : Char}

/-- Parts written with their separators are split into the same parts. -/
theorem splitOn_flatMap_append {parts : List Text} {part : Text}
    (h : ∀ t ∈ parts ++ [part], sep ∉ t) :
    splitOn sep (parts.flatMap (· ++ [sep]) ++ part) = parts ++ [part] := by
  induction parts with
  | nil => exact splitOn_of_notMem (h part List.mem_cons_self)
  | cons first parts ih =>
      obtain ⟨hfirst, hrest⟩ := List.forall_mem_cons.mp h
      rw [List.flatMap_cons, List.append_assoc, List.append_assoc, List.singleton_append,
        splitOn_append, splitOn_of_notMem hfirst, ih hrest]
      rfl

/-- A text cut where one of its parts ends. -/
theorem take_of_splitOn {t part : Text} {before after : List Text}
    (h : splitOn sep t = before ++ part :: after) :
    t.take ((before.flatMap (· ++ [sep])).length + part.length)
      = before.flatMap (· ++ [sep]) ++ part := by
  have hwhole := Path.flatMap_splitOn sep t
  rw [h, List.flatMap_append, List.flatMap_cons, ← List.append_assoc, ← List.append_assoc] at hwhole
  have hle : (before.flatMap (· ++ [sep]) ++ part).length ≤ t.length := by
    have hlen := congrArg List.length hwhole
    simp only [List.length_append, List.length_singleton] at hlen ⊢
    omega
  rw [← List.length_append, ← List.take_append_of_le_length hle, ← hwhole, List.append_assoc,
    List.take_left]

end Text

namespace Path

open Component

/-- What a path begins with before its first step, and where that ends. -/
def base (p : Path) : List (Component × Nat) :=
  if p.isAbsolute then [(.root, 1)]
  else if (p.spelling.splitOn '/').head? = some ['.'] then [(.here, 1)] else []

theorem marks_eq (p : Path) :
    p.marks = p.base ++ (ends 0 (p.spelling.splitOn '/')).filterMap markOf? := by
  rw [marks, base]
  split
  · rfl
  · cases hparts : p.spelling.splitOn '/' with
    | nil => exact absurd hparts (Text.splitOn_ne_nil '/' _)
    | cons part parts =>
        rw [List.head?_cons]
        by_cases hhere : part = ['.']
        · subst hhere
          rfl
        · rw [if_neg fun heq => hhere (Option.some.inj heq), List.nil_append]
          split
          · next e rest heq =>
              exact absurd (congrArg Prod.fst (List.cons.inj heq).1) hhere
          · rfl

/-- Cut behind the root or a dot, a spelling has that component alone. -/
theorem marks_take_base {p : Path} {before after : List (Component × Nat)}
    {m : Component × Nat} (h : p.base = before ++ m :: after) :
    (⟨p.spelling.take m.2⟩ : Path).marks = before ++ [m] := by
  have hsingle : ∀ {m' : Component × Nat}, [m'] = before ++ m :: after → before = [] ∧ m = m' := by
    intro m' h
    obtain ⟨hbefore, hm, -⟩ : before = [] ∧ m = m' ∧ after = [] := by
      simpa [List.singleton_eq_append_iff] using h
    exact ⟨hbefore, hm⟩
  rw [base] at h
  split at h
  · next habsolute =>
      obtain ⟨rfl, rfl⟩ := hsingle h
      cases hspelling : p.spelling with
      | nil => rw [isAbsolute, hspelling] at habsolute; cases habsolute
      | cons c t =>
          obtain rfl : c = '/' := by simpa [isAbsolute, hspelling] using habsolute
          rfl
  · split at h
    · next hdot =>
        obtain ⟨rfl, rfl⟩ := hsingle h
        obtain ⟨rest, hrest⟩ := List.head?_eq_some_iff.mp hdot
        have hparts : Text.splitOn '/' p.spelling = [] ++ ['.'] :: rest := hrest
        have hcut : p.spelling.take 1 = ['.'] := Text.take_of_splitOn hparts
        rw [hcut]
        rfl
    · cases before <;> cases h

/-- Each end is that of a part. -/
theorem exists_of_ends_eq {pos : Nat} {parts : List Text} {before after : List (Text × Nat)}
    {m : Text × Nat} (h : ends pos parts = before ++ m :: after) :
    ∃ first rest, parts = first ++ m.1 :: rest ∧ before = ends pos first ∧
      m.2 = pos + (first.flatMap (· ++ ['/'])).length + m.1.length := by
  induction parts generalizing pos before with
  | nil => cases before <;> cases h
  | cons part parts ih =>
      rw [ends] at h
      cases before with
      | nil =>
          obtain ⟨rfl, -⟩ := List.cons.inj h
          exact ⟨[], parts, rfl, rfl, rfl⟩
      | cons b before =>
          obtain ⟨rfl, htail⟩ := List.cons.inj h
          obtain ⟨first, rest, rfl, rfl, hend⟩ := ih htail
          refine ⟨part :: first, rest, rfl, rfl, ?_⟩
          rw [hend, List.flatMap_cons, List.length_append, List.length_append,
            List.length_singleton]
          omega

/-- A spelling that is cut behind one of its steps has what it begins with and the steps up to
    there. -/
theorem marks_take_step {p : Path} {before after : List (Component × Nat)}
    {m : Component × Nat}
    (h : (ends 0 (p.spelling.splitOn '/')).filterMap markOf? = before ++ m :: after) :
    (⟨p.spelling.take m.2⟩ : Path).marks = p.base ++ (before ++ [m]) := by
  obtain ⟨ls, rs, hsplit, hbefore, hrs⟩ := List.filterMap_eq_append_iff.mp h
  obtain ⟨ls', e, rs', rfl, hnone, he, -⟩ := List.filterMap_eq_cons_iff.mp hrs
  rw [← List.append_assoc] at hsplit
  obtain ⟨first, rest, hparts, hends, hend⟩ := exists_of_ends_eq hsplit
  obtain ⟨c, hc, rfl⟩ := Option.map_eq_some_iff.mp he
  have hslash : ∀ t ∈ first ++ [e.1], '/' ∉ t := by
    intro t ht
    refine Text.notMem_of_mem_splitOn (t := p.spelling) ?_
    rw [hparts, List.append_cons]
    exact List.mem_append_left rest ht
  -- the cut is spelled by the parts up to there
  have hcut : p.spelling.take e.2 = first.flatMap (· ++ ['/']) ++ e.1 := by
    rw [hend, Nat.zero_add, Text.take_of_splitOn hparts]
  have hsplitOn : Text.splitOn '/' (p.spelling.take e.2) = first ++ [e.1] := by
    rw [hcut, Text.splitOn_flatMap_append hslash]
  have hbase : (⟨p.spelling.take e.2⟩ : Path).base = p.base := by
    have hpos : e.2 ≠ 0 := by
      have hlen := List.length_pos_iff.mpr (isStep_of_ofPart? (hslash e.1 (by simp)) hc).text_ne_nil
      rw [text_of_ofPart? hc] at hlen
      omega
    have habsolute : (⟨p.spelling.take e.2⟩ : Path).isAbsolute = p.isAbsolute := by
      rw [isAbsolute, isAbsolute, List.head?_take, if_neg hpos]
    have hhead : (first ++ [e.1]).head? = (first ++ e.1 :: rest).head? := by
      cases first <;> rfl
    rw [base, base, habsolute, hsplitOn, hparts, hhead]
  have hsteps : (ends 0 (first ++ [e.1])).filterMap markOf? = before ++ [(c, e.2)] := by
    have hskipped : ls'.filterMap markOf? = [] := List.filterMap_eq_nil_iff.mpr hnone
    rw [ends_concat, ← hend, ← hends, List.filterMap_append, List.filterMap_append, hbefore,
      hskipped, List.append_nil, List.filterMap_cons, he]
    rfl
  rw [marks_eq, hbase, hsplitOn, hsteps]

/-- **A spelling that is cut where a component ends has the components up to there**, and they end
    where they ended. -/
theorem marks_take {p : Path} {before after : List (Component × Nat)} {m : Component × Nat}
    (h : p.marks = before ++ m :: after) :
    (⟨p.spelling.take m.2⟩ : Path).marks = before ++ [m] := by
  rw [marks_eq] at h
  rcases List.append_eq_append_iff.mp h with ⟨more, rfl, hsteps⟩ | ⟨left, hbase, hrest⟩
  · rw [marks_take_step hsteps, List.append_assoc]
  · cases left with
    | nil =>
        rw [List.append_nil] at hbase
        have hsteps : (ends 0 (p.spelling.splitOn '/')).filterMap markOf? = [] ++ m :: after :=
          hrest.symm
        rw [marks_take_step hsteps, hbase]
        rfl
    | cons first left =>
        obtain ⟨rfl, -⟩ := List.cons.inj hrest
        exact marks_take_base hbase

theorem components_take {p : Path} {before after : List (Component × Nat)} {m : Component × Nat}
    (h : p.marks = before ++ m :: after) :
    (⟨p.spelling.take m.2⟩ : Path).components = (before ++ [m]).map Prod.fst :=
  congrArg (List.map Prod.fst) (marks_take h)

/-- The directory of a path that ends in a name has the components before the name. -/
theorem components_parent {p : Path} {folder : List Component} {n : Text}
    (h : p.components = folder ++ [.name n]) : p.parent.components = folder := by
  obtain ⟨marks, last, hmarks, rfl, hlast⟩ := List.map_eq_append_iff.mp h
  obtain ⟨⟨c, e⟩, rfl, hc⟩ := List.map_eq_singleton_iff.mp hlast
  obtain rfl : c = .name n := hc
  have hreverse : p.marks.reverse = (.name n, e) :: marks.reverse := by
    rw [hmarks, List.reverse_append]
    rfl
  rw [parent, parent?, hreverse]
  cases hbefore : marks.reverse with
  | nil =>
      rw [List.reverse_eq_nil_iff.mp hbefore]
      rfl
  | cons m before =>
      have hcut : p.marks = before.reverse ++ m :: [(.name n, e)] := by
        rw [hmarks, List.reverse_eq_cons_iff.mp hbefore, List.append_assoc]
        rfl
      rw [List.reverse_eq_cons_iff.mp hbefore]
      exact components_take hcut

/-- So the path settles on top of what its directory settles to. -/
theorem settled_eq_cons {p : Path} {folder : List Component} {n : Text}
    (h : p.components = folder ++ [.name n]) : p.settled = .name n :: p.parent.settled := by
  rw [settled, h, List.foldl_append, settled, components_parent h]
  rfl

/-- Normalizing a path normalizes its directory. -/
theorem components_parent_normalize {p : Path} {folder : List Component} {n : Text}
    (h : p.components = folder ++ [.name n]) :
    p.normalize.parent.components = p.parent.settled.reverse := by
  refine components_parent (n := n) ?_
  rw [components_normalize, settled_eq_cons h, List.reverse_cons]

theorem settled_parent_normalize {p : Path} {folder : List Component} {n : Text}
    (h : p.components = folder ++ [.name n]) : p.normalize.parent.settled = p.parent.settled := by
  rw [settled, components_parent_normalize h, p.parent.settled_settled.foldl_reverse]

end Path

end Literate
