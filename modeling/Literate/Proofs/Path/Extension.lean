import Literate.Proofs.Path.Relative
import Mathlib.Data.List.Induction

/-! # Where pages go

    The page of a document has the name of the document with another extension,
    in a directory that lies to the output directory as the document's own lies
    to that of the root.

    * A path whose extension is replaced is the same path with another name at
      its end (`Path.withExtension_join`).
    * The way to a document is the way to its directory and then its name,
      unless the document lies on the way to the root's directory
      (`Path.route_concat`).
    * So two documents share a page exactly if their names are the same up to
      the extension and their directories go to one directory
      (`Path.Placed.outputName_eq_iff`).  Below the root's directory no two
      directories go to one (`Path.Below.outputName_eq_iff`). -/

namespace Literate.Path

open Component

/-! ## Joining -/

/-- What stands between a path and a relative one behind it. -/
def gap (t : Text) : Text :=
  if t.isEmpty || t.getLast? == some '/' then [] else ['/']

theorem spelling_join {p q : Path} (h : q.isAbsolute = false) :
    (p.join q).spelling = p.spelling ++ gap p.spelling ++ q.spelling := by
  rw [join, h, if_neg Bool.false_ne_true, gap]
  split
  · rw [List.append_nil]
  · rw [List.append_assoc]
    rfl

theorem gap_append (s : Text) {t : Text} (h : t ≠ []) : gap (s ++ t) = gap t := by
  rw [← List.dropLast_concat_getLast h, ← List.append_assoc]
  simp [gap]

/-- A path that is ready to be joined to begins, or ends with a slash. -/
theorem append_gap (t : Text) : t ++ gap t = [] ∨ ∃ s, t ++ gap t = s ++ ['/'] := by
  rw [gap]
  split
  · next hready =>
      rw [List.append_nil]
      rcases Bool.or_eq_true_iff.mp hready with hempty | hlast
      · exact Or.inl (List.isEmpty_iff.mp hempty)
      · exact Or.inr (List.getLast?_eq_some_iff.mp (beq_iff_eq.mp hlast))
  · exact Or.inr ⟨t, rfl⟩

theorem gap_append_gap (t : Text) : gap (t ++ gap t) = [] := by
  rcases append_gap t with hnil | ⟨s, hs⟩
  · rw [hnil]
    rfl
  · rw [hs, gap_append s (List.cons_ne_nil _ _)]
    rfl

/-- It does not matter which of two paths in front of a relative one are joined first. -/
theorem join_join (p q : Path) {r : Path} (hr : r.isAbsolute = false) :
    p.join (q.join r) = (p.join q).join r := by
  cases hq : q.isAbsolute with
  | true =>
      have habsolute : (q.join r).isAbsolute = true := by
        rw [isAbsolute, spelling_join hr]
        rw [isAbsolute] at hq
        cases hspelling : q.spelling with
        | nil => rw [hspelling] at hq; cases hq
        | cons c t => rw [hspelling] at hq; exact hq
      have hrest : p.join q = q := by rw [join, if_pos hq]
      rw [hrest, join, if_pos habsolute]
  | false =>
      -- an empty path in the middle brings the slash that would have come anyway
      by_cases hnil : q.spelling = []
      · have hskip : q.join r = r := by
          rw [join, hr, hnil]
          rfl
        have hspelling : (p.join q).spelling = p.spelling ++ gap p.spelling := by
          rw [spelling_join hq, hnil, List.append_nil]
        have heq : (p.join r).spelling = ((p.join q).join r).spelling := by
          rw [spelling_join hr, spelling_join hr, hspelling, gap_append_gap, List.append_nil]
        rw [hskip]
        exact congrArg Path.mk heq
      · have hrelative : (q.join r).isAbsolute = false := by
          rw [isAbsolute, spelling_join hr]
          rw [isAbsolute] at hq
          cases hspelling : q.spelling with
          | nil => exact absurd hspelling hnil
          | cons c t => rw [hspelling] at hq; exact hq
        have heq : (p.join (q.join r)).spelling = ((p.join q).join r).spelling := by
          rw [spelling_join hrelative, spelling_join hr, spelling_join hr, spelling_join hq,
            gap_append _ hnil]
          simp only [List.append_assoc]
        exact congrArg Path.mk heq

theorem isAbsolute_of_isStep {c : Component} (h : c.IsStep) :
    (⟨c.text⟩ : Path).isAbsolute = false := by
  have hfirst := not_isAbsolute_of_step h []
  rwa [List.append_nil] at hfirst

theorem isAbsolute_of_isName {n : Text} (h : IsName n) : (⟨n⟩ : Path).isAbsolute = false :=
  isAbsolute_of_isStep h

theorem steps_of_isName {n : Text} (h : IsName n) : steps n = [.name n] :=
  steps_text h

theorem ne_nil_of_isName {n : Text} (h : IsName n) : n ≠ [] :=
  h.text_ne_nil

theorem ofComponents_concat (cs : List Component) (c : Component) :
    ofComponents (cs ++ [c]) = (ofComponents cs).join ⟨c.text⟩ := by
  rw [ofComponents, List.foldl_append]
  rfl

/-- Steps behind a path settle on top of it. -/
theorem settled_join_ofComponents (p : Path) {cs : List Component} (h : ∀ c ∈ cs, c.IsStep) :
    (p.join (ofComponents cs)).settled = cs.foldl settle p.settled := by
  induction cs using List.reverseRecOn with
  | nil => exact settled_join rfl
  | append_singleton cs c ih =>
      obtain ⟨hcs, hc⟩ := List.forall_mem_append.mp h
      have hc := hc c List.mem_cons_self
      rw [ofComponents_concat, join_join p _ (isAbsolute_of_isStep hc),
        settled_join (isAbsolute_of_isStep hc), ih hcs, steps_text hc, List.foldl_append]

/-! ## Replacing an extension -/

theorem stem_ne_nil {n : Text} (h : n ≠ []) : stem n ≠ [] := by
  rw [stem]
  split
  · exact h
  · next hbefore => exact fun hnil => hbefore (List.isEmpty_iff.mpr hnil)

theorem begins_with_dropWhileEnd (p : Char → Bool) (t : Text) : Text.dropWhileEnd p t <+: t := by
  have hsuffix := List.dropWhile_suffix (l := t.reverse) p
  have hprefix := List.reverse_prefix.mpr hsuffix
  rwa [List.reverse_reverse] at hprefix

/-- A name begins with its stem. -/
theorem begins_with_stem (n : Text) : stem n <+: n := by
  rw [stem]
  split
  · exact List.prefix_rfl
  · exact (List.dropLast_prefix _).trans (begins_with_dropWhileEnd _ n)

/-- A text is a name if it has no slash and is longer than two dots. -/
theorem isName_of_length {t : Text} (hslash : '/' ∉ t) (h : 2 < t.length) : IsName t := by
  refine ⟨hslash, ?_⟩
  show ofPart? t = some (.name t)
  rw [ofPart?.eq_def]
  split
  · cases h
  · exact absurd h (by decide)
  · exact absurd h (by decide)
  · rfl

theorem isName_stem {n : Text} (hn : IsName n) {extension : Text} (hext : extension ≠ [])
    (hslash : '/' ∉ extension) : IsName (stem n ++ '.' :: extension) := by
  refine isName_of_length ?_ ?_
  · intro hmem
    rcases List.mem_append.mp hmem with hmem | hmem
    · exact hn.1 ((begins_with_stem n).subset hmem)
    · rcases List.mem_cons.mp hmem with hdot | hmem
      · exact absurd hdot (by decide)
      · exact hslash hmem
  · have hstem := List.length_pos_iff.mpr (stem_ne_nil (ne_nil_of_isName hn))
    have hext := List.length_pos_iff.mpr hext
    rw [List.length_append, List.length_cons]
    omega

/-- The parts with their separators are the text again. -/
theorem flatMap_splitOn (sep : Char) (t : Text) :
    (Text.splitOn sep t).flatMap (· ++ [sep]) = t ++ [sep] := by
  induction t with
  | nil => rfl
  | cons c t ih =>
      rw [Text.splitOn]
      split
      · next hc =>
          rw [List.flatMap_cons, ih, hc]
          rfl
      · split
        · next hparts => exact absurd hparts (Text.splitOn_ne_nil sep t)
        · next first more hparts =>
            rw [hparts, List.flatMap_cons] at ih
            rw [List.flatMap_cons, List.cons_append, List.cons_append, ih]
            rfl

theorem ends_concat (pos : Nat) (parts : List Text) (part : Text) :
    ends pos (parts ++ [part])
      = ends pos parts
        ++ [(part, pos + (parts.flatMap (· ++ ['/'])).length + part.length)] := by
  induction parts generalizing pos with
  | nil => rfl
  | cons first parts ih =>
      rw [List.cons_append, ends, ih, ends, List.flatMap_cons, List.cons_append,
        List.length_append, List.length_append, List.length_singleton]
      congr 4
      omega

/-- The last part of a spelling ends where the spelling does. -/
theorem exists_ends {x n : Text} (hx : x = [] ∨ ∃ s, x = s ++ ['/']) (hn : '/' ∉ n) :
    ∃ before, ends 0 ((x ++ n).splitOn '/') = before ++ [(n, x.length + n.length)] := by
  rcases hx with rfl | ⟨s, rfl⟩
  · refine ⟨[], ?_⟩
    rw [List.nil_append, Text.splitOn_of_notMem hn, ends, List.length_nil]
    rfl
  · refine ⟨ends 0 (s.splitOn '/'), ?_⟩
    rw [List.append_assoc, List.singleton_append, Text.splitOn_append, Text.splitOn_of_notMem hn,
      ends_concat, flatMap_splitOn, Nat.zero_add]

/-- A name at the end of a path is its last component. -/
theorem getLast?_marks {x n : Text} (hx : x = [] ∨ ∃ s, x = s ++ ['/']) (hn : IsName n) :
    (⟨x ++ n⟩ : Path).marks.getLast? = some (.name n, x.length + n.length) := by
  have hslash : '/' ∉ n := hn.1
  obtain ⟨before, hends⟩ := exists_ends hx hslash
  have hmark : markOf? (n, x.length + n.length) = some (.name n, x.length + n.length) := by
    rw [markOf?, show ofPart? n = some (.name n) from hn.2]
    rfl
  have hlast : ∀ parts : List (Text × Nat),
      ((parts ++ [(n, x.length + n.length)]).filterMap markOf?)
        = parts.filterMap markOf? ++ [(.name n, x.length + n.length)] := by
    intro parts
    rw [List.filterMap_append, List.filterMap_cons, hmark]
    rfl
  rw [marks, hends]
  split
  · rw [hlast, ← List.cons_append, List.getLast?_concat]
  · split
    · next e rest heq =>
        -- a dot at the start is not the name
        cases before with
        | nil => exact absurd (congrArg Prod.fst (List.cons.inj heq).1) hn.text_ne_here
        | cons first before =>
            have hrest := (List.cons.inj heq).2
            rw [← hrest, show before.append _ = before ++ _ from rfl, hlast, ← List.cons_append,
              List.getLast?_concat]
    · rw [hlast, List.getLast?_concat]

/-- **A new extension is a new name at the end.** -/
theorem withExtension_join (p : Path) {n extension : Text} (hn : IsName n)
    (hstem : stem n ≠ ['.']) :
    (p.join ⟨n⟩).withExtension extension = p.join ⟨stem n ++ '.' :: extension⟩ := by
  have hrelative : (⟨stem n ++ '.' :: extension⟩ : Path).isAbsolute = false := by
    obtain ⟨rest, hrest⟩ := begins_with_stem n
    have hname := isAbsolute_of_isName hn
    rw [isAbsolute] at hname ⊢
    cases hcons : stem n with
    | nil => exact absurd hcons (stem_ne_nil (ne_nil_of_isName hn))
    | cons c t =>
        rw [← hrest, hcons] at hname
        exact hname
  have hspelling := spelling_join (p := p) (isAbsolute_of_isName hn)
  have hlast := getLast?_marks (append_gap p.spelling) hn
  have heq : ((p.join ⟨n⟩).withExtension extension).spelling
      = (p.join ⟨stem n ++ '.' :: extension⟩).spelling := by
    have hpath : p.join ⟨n⟩ = ⟨p.spelling ++ gap p.spelling ++ n⟩ := congrArg Path.mk hspelling
    rw [spelling_join hrelative, hpath, withExtension, hlast]
    simp only [hstem, beq_iff_eq, Bool.and_eq_true, false_and, if_false, Nat.add_sub_cancel]
    rw [List.take_length_add_append, ← List.prefix_iff_eq_take.mp (begins_with_stem n),
      List.append_assoc]
  exact congrArg Path.mk heq

/-- A name that has a dot for its stem begins with two dots. -/
theorem take_of_stem {n : Text} (hn : IsName n) (hstem : stem n = ['.']) :
    n.take 2 = ['.', '.'] := by
  have hprefix := begins_with_dropWhileEnd (· != '.') n
  rw [stem] at hstem
  split at hstem
  · exact absurd hstem hn.text_ne_here
  · -- before the extension stands the dot that begins it
    cases hkept : n.reverse.dropWhile (· != '.') with
    | nil =>
        rw [Text.dropWhileEnd, hkept] at hstem
        cases hstem
    | cons c rest =>
        have hdot : c = '.' := by
          have hstop := List.head?_dropWhile_not (· != '.') n.reverse
          rw [hkept, List.head?_cons] at hstop
          simpa using hstop
        rw [Text.dropWhileEnd, hkept, List.reverse_cons, List.dropLast_concat] at hstem
        rw [Text.dropWhileEnd, hkept, List.reverse_cons, hstem, hdot] at hprefix
        exact (List.prefix_iff_eq_take.mp hprefix).symm

/-- What is left of such a name at the end of a path is `..`. -/
theorem withExtension_join_of_stem (p : Path) {n : Text} (hn : IsName n) (hstem : stem n = ['.'])
    (extension : Text) : (p.join ⟨n⟩).withExtension extension = p.join ⟨['.', '.']⟩ := by
  have hlast := getLast?_marks (append_gap p.spelling) hn
  have hpath : p.join ⟨n⟩ = ⟨p.spelling ++ gap p.spelling ++ n⟩ :=
    congrArg Path.mk (spelling_join (isAbsolute_of_isName hn))
  have hup := spelling_join (p := p) (isAbsolute_of_isStep isStep_up)
  have heq : ((p.join ⟨n⟩).withExtension extension).spelling = (p.join ⟨['.', '.']⟩).spelling := by
    rw [hpath, withExtension, hlast]
    refine Eq.trans ?_ hup.symm
    simp only [hstem, List.length_append, List.length_singleton, BEq.rfl, Bool.and_self, if_true,
      Nat.add_sub_cancel]
    rw [Nat.add_assoc, ← List.length_append, List.take_length_add_append, take_of_stem hn hstem]
    rfl
  exact congrArg Path.mk heq

/-! ## The way to a document -/

theorem commonLength_le (source goal : List Component) :
    commonLength source goal ≤ goal.length := by
  induction source generalizing goal with
  | nil => exact Nat.zero_le _
  | cons a source ih =>
      cases goal with
      | nil => exact Nat.zero_le _
      | cons b goal =>
          rw [commonLength]
          split
          · exact Nat.succ_le_succ (ih goal)
          · exact Nat.zero_le _

theorem commonLength_concat {source goal : List Component} {c : Component}
    (h : ¬ goal ++ [c] <+: source) :
    commonLength source (goal ++ [c]) = commonLength source goal := by
  induction goal generalizing source with
  | nil =>
      cases source with
      | nil => rfl
      | cons a source =>
          rw [List.nil_append, commonLength, if_neg]
          · rfl
          · rintro rfl
            exact h ⟨source, rfl⟩
  | cons b goal ih =>
      cases source with
      | nil => rfl
      | cons a source =>
          rw [List.cons_append, commonLength, commonLength]
          by_cases hab : a = b
          · rw [if_pos hab, if_pos hab, ih]
            intro hprefix
            exact h (List.cons_prefix_cons.mpr ⟨hab.symm, hprefix⟩)
          · rw [if_neg hab, if_neg hab]

/-- The way to a place is the way to the directory it is in and one step more, if it does not
    lie on the way to where one comes from. -/
theorem route_concat {source goal : List Component} {c : Component}
    (h : ¬ goal ++ [c] <+: source) :
    route source (goal ++ [c]) = route source goal ++ [c] := by
  rw [route, route, commonLength_concat h,
    List.drop_append_of_le_length (commonLength_le source goal), List.append_assoc]

/-! ## Pages -/

theorem Settled.tail {absolute : Bool} {n : Text} {done : List Component}
    (h : Settled absolute (.name n :: done)) : IsName n ∧ Settled absolute done := by
  generalize hall : Component.name n :: done = all at h
  cases h with
  | relative names h k =>
      cases names with
      | nil => cases k <;> cases hall
      | cons t names =>
          cases hall
          exact ⟨h _ List.mem_cons_self,
            .relative names (fun u hu => h u (List.mem_cons_of_mem _ hu)) k⟩
  | absolute names h =>
      cases names with
      | nil => cases hall
      | cons t names =>
          cases hall
          exact ⟨h _ List.mem_cons_self,
            .absolute names fun u hu => h u (List.mem_cons_of_mem _ hu)⟩

theorem Settled.isName_of_mem {absolute : Bool} {done : List Component}
    (h : Settled absolute done) {t : Text} (ht : .name t ∈ done) : IsName t := by
  cases h with
  | relative names h k =>
      rcases List.mem_append.mp ht with hmem | hmem
      · exact h t (by simpa using hmem)
      · cases (List.mem_replicate.mp hmem).2
  | absolute names h =>
      rcases List.mem_append.mp ht with hmem | hmem
      · exact h t (by simpa using hmem)
      · cases List.mem_singleton.mp hmem

theorem Settled.settled_ofComponents {absolute : Bool} {done : List Component}
    (h : Settled absolute done) : (ofComponents done.reverse).settled = done := by
  rw [settled, h.components, h.foldl_reverse]

/-! ### A path that ends in a name -/

section

variable {f : Path} {folder : List Component} {name : Text}

theorem settled_of_components (h : f.normalize.components = folder ++ [.name name]) :
    f.settled = .name name :: folder.reverse := by
  rw [components_normalize] at h
  rw [← List.reverse_reverse f.settled, h, List.reverse_append]
  rfl

theorem isName_of_components (h : f.normalize.components = folder ++ [.name name]) :
    IsName name := by
  have hsettled := f.settled_settled
  rw [settled_of_components h] at hsettled
  exact hsettled.tail.1

theorem settled_folder_of_components (h : f.normalize.components = folder ++ [.name name]) :
    (ofComponents folder).settled = folder.reverse := by
  have hsettled := f.settled_settled
  rw [settled_of_components h] at hsettled
  have hfolder := hsettled.tail.2.settled_ofComponents
  rwa [List.reverse_reverse] at hfolder

/-- The way to it is the way to its folder and then the name. -/
theorem relativeTo_eq_join (h : f.normalize.components = folder ++ [.name name]) {dir : Path}
    (hbeside : ¬ f.normalize.components <+: dir.normalize.components) :
    relativeTo dir f = (relativeTo dir (ofComponents folder)).join ⟨name⟩ := by
  rw [h, components_normalize] at hbeside
  rw [relativeTo_eq, relativeTo_eq, settled_folder_of_components h, settled_of_components h,
    List.reverse_cons, List.reverse_reverse, route_concat hbeside, ofComponents_concat]
  rfl

end

/-- A document with a name of its own, which is more than an extension, in a folder. -/
structure Named (f : Path) (folder : List Component) (name : Text) : Prop where
  given : ¬ (f.spelling.isEmpty || f == standardInput) = true
  components : f.normalize.components = folder ++ [.name name]
  stem : stem name ≠ ['.']

/-- The directory for the pages of the documents in a folder. -/
def pageDir (rootDir outDir : Path) (folder : List Component) : Path :=
  (outDir.join (relativeTo rootDir (ofComponents folder))).normalize

namespace Named

variable {f : Path} {folder : List Component} {name : Text}

theorem settled_eq (h : Named f folder name) : f.settled = .name name :: folder.reverse :=
  settled_of_components h.components

theorem isName (h : Named f folder name) : IsName name :=
  isName_of_components h.components

theorem settled_folder (h : Named f folder name) :
    (ofComponents folder).settled = folder.reverse :=
  settled_folder_of_components h.components

/-- The page has the stem of the document's name, and lies where the pages of the folder do. -/
theorem settled_outputName (h : Named f folder name) {rootDir : Path}
    (hbeside : ¬ f.normalize.components <+: rootDir.normalize.components) (outDir : Path) :
    (outputName f rootDir outDir).settled
      = .name (Path.stem name ++ ".html".toList) :: (pageDir rootDir outDir folder).settled := by
  have hrelative := isAbsolute_of_isName h.isName
  have hpage : IsName (Path.stem name ++ '.' :: "html".toList) :=
    isName_stem h.isName (List.cons_ne_nil _ _) (by decide)
  rw [outputName, if_neg h.given, settled_normalize, relativeTo_eq_join h.components hbeside,
    join_join outDir _ hrelative,
    withExtension_join _ h.isName h.stem, settled_join (isAbsolute_of_isName hpage),
    steps_of_isName hpage, pageDir, settled_normalize]
  rfl

end Named

/-- What the name of a page is made of: the directory that it goes to, and what stands before
    the extension.  A document whose path ends in no name, or in a name like `..x`, has none,
    and neither has one that lies on the way to the root's directory. -/
inductive Placed (rootDir outDir : Path) : Path → Path → Text → Prop where
  | named {f : Path} {folder : List Component} {name : Text} (h : Named f folder name)
      (hbeside : ¬ f.normalize.components <+: rootDir.normalize.components) :
      Placed rootDir outDir f (pageDir rootDir outDir folder) (stem name)
  | unnamed {f : Path} (h : (f.spelling.isEmpty || f == standardInput) = true) :
      Placed rootDir outDir f outDir.normalize "out".toList

namespace Placed

variable {rootDir outDir f g dir dir' : Path} {stem stem' : Text}

theorem settled_outputName (h : Placed rootDir outDir f dir stem) :
    (outputName f rootDir outDir).settled = .name (stem ++ ".html".toList) :: dir.settled := by
  cases h with
  | named h hbeside => exact h.settled_outputName hbeside outDir
  | unnamed h =>
      have hpage : IsName "out.html".toList := isName_of_length (by decide) (by decide)
      rw [outputName, if_pos h, settled_normalize, settled_join (isAbsolute_of_isName hpage),
        steps_of_isName hpage, settled_normalize]
      rfl

theorem normalize_dir (h : Placed rootDir outDir f dir stem) : dir.normalize = dir := by
  cases h <;> exact normalize_normalize _

/-- Two documents share a page exactly if their names are the same up to the extension and
    their pages go to one directory. -/
theorem outputName_eq_iff (hf : Placed rootDir outDir f dir stem)
    (hg : Placed rootDir outDir g dir' stem') :
    outputName f rootDir outDir = outputName g rootDir outDir ↔ dir = dir' ∧ stem = stem' := by
  rw [← normalize_outputName f, ← normalize_outputName g, normalize_eq_iff,
    hf.settled_outputName, hg.settled_outputName, List.cons.injEq, Component.name.injEq,
    List.append_left_inj, ← normalize_eq_iff, hf.normalize_dir, hg.normalize_dir, and_comm]

end Placed

/-! ## Below the directory of the root -/

/-- A document below the directory of the root: the folders on the way down, and its name
    without the extension.  The standard input counts as a document `out`. -/
inductive Below (rootDir : Path) : Path → List Text → Text → Prop where
  | named {f : Path} {folders : List Text} {name : Text}
      (h : Named f (rootDir.normalize.components ++ folders.map Component.name) name) :
      Below rootDir f folders (stem name)
  | unnamed {f : Path} (h : (f.spelling.isEmpty || f == standardInput) = true) :
      Below rootDir f [] "out".toList

/-- The page lies below the output directory as the document does below that of the root. -/
theorem Below.exists_placed {rootDir f : Path} {folders : List Text} {stem : Text}
    (h : Below rootDir f folders stem) (outDir : Path) :
    ∃ dir, Placed rootDir outDir f dir stem ∧
      dir.settled = (folders.map Component.name).reverse ++ outDir.settled := by
  cases h with
  | unnamed h => exact ⟨_, .unnamed h, outDir.settled_normalize⟩
  | named h =>
      refine ⟨_, .named h ?_, ?_⟩
      · -- the document lies deeper than the directory
        intro hprefix
        have hle := hprefix.length_le
        rw [h.components, List.length_append, List.length_append, List.length_singleton] at hle
        omega
      · have hroute : route rootDir.settled.reverse
            (rootDir.settled.reverse ++ folders.map Component.name)
              = folders.map Component.name := by
          have hshared := route_append rootDir.settled.reverse [] (folders.map Component.name)
          rw [List.append_nil] at hshared
          rw [hshared]
          rfl
        have hnames : ∀ t ∈ folders, IsName t := by
          intro t ht
          refine f.settled_settled.isName_of_mem ?_
          rw [h.settled_eq, List.reverse_append]
          simp [ht]
        rw [pageDir, settled_normalize, relativeTo_eq, h.settled_folder, List.reverse_reverse,
          components_normalize, hroute, settled_join_ofComponents _ (isStep_of_mem_names hnames),
          foldl_settle_names]

/-- Below the directory of the root, documents share a page exactly if they are in one folder
    and their names are the same up to the extension. -/
theorem Below.outputName_eq_iff {rootDir f g : Path} {folders folders' : List Text}
    {stem stem' : Text} (hf : Below rootDir f folders stem) (hg : Below rootDir g folders' stem')
    (outDir : Path) :
    outputName f rootDir outDir = outputName g rootDir outDir ↔
      folders = folders' ∧ stem = stem' := by
  obtain ⟨dir, hplaced, hdir⟩ := hf.exists_placed outDir
  obtain ⟨dir', hplaced', hdir'⟩ := hg.exists_placed outDir
  rw [hplaced.outputName_eq_iff hplaced', ← hplaced.normalize_dir, ← hplaced'.normalize_dir,
    normalize_eq_iff, hdir, hdir', List.append_left_inj, List.reverse_inj,
    List.map_inj_right fun _ _ heq => Component.name.inj heq]

end Literate.Path
