import Literate.Host
import Literate.Proofs.Path.Ancestors

/-! # The search for the settings file

    The search looks into a directory for a file of one of the names, in their
    order, and goes on with the parent of the directory, until there is none
    (`Settings.Search`).  It ends for every directory, with one answer, and the
    first of all candidates that is there is this answer (`Settings.search_iff`).

    The file that is found lies in one of the ancestors of the directory that the
    search starts from (`Settings.exists_of_findFile?`).  These are cuts of its
    spelling, so they lie above it if it is inward, and one of them does not if it
    is not; a settings file there is found, although it lies beside the directory
    or below it. -/

namespace Literate

namespace Settings

open Component

variable {present : Path → Bool} {start : Path}

/-- The places for a settings file in one directory. -/
def filesIn (dir : Path) : List Path :=
  fileNames.map fun name => dir.join ⟨name⟩

/-- A search from a directory outwards, with what it finds. -/
inductive Search (present : Path → Bool) : Path → Option Path → Prop where
  | here {dir file : Path} (h : (filesIn dir).find? present = some file) :
      Search present dir (some file)
  | outermost {dir : Path} (h : (filesIn dir).find? present = none) (hnone : dir.parent? = none) :
      Search present dir none
  | outwards {dir outer : Path} {found : Option Path} (h : (filesIn dir).find? present = none)
      (hsome : dir.parent? = some outer) (search : Search present outer found) :
      Search present dir found

/-! ## The end of the search -/

theorem findFile?_outermost (h : start.parent? = none) :
    findFile? present start = (filesIn start).find? present := by
  rw [findFile?, candidates, Path.ancestors_outermost h, List.flatMap_singleton]
  rfl

theorem findFile?_outwards {outer : Path} (h : start.parent? = some outer) :
    findFile? present start
      = ((filesIn start).find? present).or (findFile? present outer) := by
  rw [findFile?, candidates, Path.ancestors_outwards h, List.flatMap_cons, List.find?_append]
  rfl

theorem Search.findFile?_eq {found : Option Path} (h : Search present start found) :
    findFile? present start = found := by
  induction h with
  | @here dir file h =>
      cases hparent : dir.parent? with
      | none => rw [findFile?_outermost hparent, h]
      | some outer =>
          rw [findFile?_outwards hparent, h]
          rfl
  | outermost h hnone => rw [findFile?_outermost hnone, h]
  | outwards h hsome search ih =>
      rw [findFile?_outwards hsome, h, ih]
      rfl

theorem search_findFile? (present : Path → Bool) (start : Path) :
    Search present start (findFile? present start) := by
  induction start using Path.outwards_induction with
  | outermost dir hnone =>
      rw [findFile?_outermost hnone]
      cases h : (filesIn dir).find? present with
      | none => exact Search.outermost h hnone
      | some file => exact Search.here h
  | outwards dir outer hsome ih =>
      rw [findFile?_outwards hsome]
      cases h : (filesIn dir).find? present with
      | none => exact Search.outwards h hsome ih
      | some file => exact Search.here h

/-- **The search ends with one answer**, and it is the first candidate that is there. -/
theorem search_iff {found : Option Path} :
    Search present start found ↔ findFile? present start = found := by
  constructor
  · exact Search.findFile?_eq
  · rintro rfl
    exact search_findFile? present start

/-! ## Where the file lies -/

theorem isName_of_mem_fileNames {name : Text} (h : name ∈ fileNames) : IsName name := by
  rcases List.mem_cons.mp h with rfl | h
  · exact Path.isName_of_length (by decide) (by decide)
  · rw [List.mem_singleton.mp h]
    exact Path.isName_of_length (by decide) (by decide)

theorem mem_candidates {file : Path} :
    file ∈ candidates start ↔
      ∃ dir ∈ start.ancestors, ∃ name ∈ fileNames, dir.join ⟨name⟩ = file := by
  simp only [candidates, List.mem_flatMap, List.mem_map]

/-- What is found is a name in one of the directories that are searched. -/
theorem exists_of_findFile? {file : Path} (h : findFile? present start = some file) :
    present file = true ∧ ∃ dir ∈ start.ancestors, ∃ name,
      file.components = dir.components ++ [.name name] ∧
        file.parent.components = dir.components := by
  refine ⟨List.find?_some h, ?_⟩
  obtain ⟨dir, hdir, name, hname, rfl⟩ := mem_candidates.mp (List.mem_of_find?_eq_some h)
  have hcomponents := Path.components_join_step dir (isName_of_mem_fileNames hname)
  exact ⟨dir, hdir, name, hcomponents, Path.components_parent hcomponents⟩

/-- A settings file in one of these directories is found, if there is nothing else. -/
theorem exists_findFile? {dir : Path} (hdir : dir ∈ start.ancestors) (place : Place) :
    ∃ held file, findFile? (fun p => decide (p.placeFrom place = held)) start = some file ∧
      file.parent.placeFrom place = dir.placeFrom place := by
  have hplace : ∀ {file dir : Path} {name : Text},
      file.components = dir.components ++ [.name name] →
        file.placeFrom place = dir.placeFrom place ++ [name] := by
    intro file dir name h
    rw [Path.placeFrom, h, List.foldl_append]
    rfl
  obtain ⟨name, hname⟩ : ∃ name, name ∈ fileNames := ⟨_, List.mem_cons_self⟩
  have hjoin := Path.components_join_step dir (isName_of_mem_fileNames hname)
  refine ⟨dir.placeFrom place ++ [name], ?_⟩
  have hfound : (findFile? (fun p => decide (p.placeFrom place = dir.placeFrom place ++ [name]))
      start).isSome := by
    refine List.find?_isSome.mpr ⟨dir.join ⟨name⟩, ?_, decide_eq_true (hplace hjoin)⟩
    exact mem_candidates.mpr ⟨dir, hdir, name, hname, rfl⟩
  obtain ⟨file, hfile⟩ := Option.isSome_iff_exists.mp hfound
  obtain ⟨hheld, dir', -, name', hcomponents, hparent⟩ := exists_of_findFile? hfile
  refine ⟨file, hfile, ?_⟩
  -- another of the directories may lead to the same place, but then it is as good
  have hsame := of_decide_eq_true hheld
  rw [hplace hcomponents] at hsame
  rw [Path.placeFrom, hparent]
  exact (List.append_inj' hsame rfl).1

/-! ## Settings on a disk -/

/-- What a disk has under a path. -/
def onDisk (disk : Disk) (p : Path) : Bool :=
  (disk.lookup? p).isSome

theorem settingsFor_host (input : ByteArray) (start : Path) (disk : Disk) :
    (Disk.host input).settingsFor start disk
      = match findFile? (onDisk disk) start with
        | some file => (Disk.host input).readSettings file disk
        | none => (([], .ok .default), disk) := by
  have hrun : (Disk.host input).settingsFor start disk
      = (fun found : Option Path × Disk =>
          (match found.1 with
            | some file => (Disk.host input).readSettings file
            | none => pure ([], .ok .default)) found.2)
        ((Disk.host input).firstPresent? (candidates start) disk) := rfl
  have hfound : (Disk.host input).firstPresent? (candidates start) disk
      = (findFile? (onDisk disk) start, disk) := Disk.firstPresent?_host input _ disk
  rw [hrun, hfound]
  cases findFile? (onDisk disk) start with
  | none => rfl
  | some file => rfl

/-- **Settings are found above a directory that is spelled inwards, and not always above another.**
    The search ends for every directory, with one answer, from which a disk takes the settings.  The
    file that is found is in a directory that has the first components of the one where the search
    starts.  If that is inward, as it is without `..`, the file lies there or above, wherever both
    are followed from.  If it is not, then from directories as deep as one likes a settings file
    that is neither there nor above is found. -/
theorem files_are_found_above_inward_starts (start : Path) :
    (∀ present found, Search present start found ↔ findFile? present start = found) ∧
    (∀ input disk, (Disk.host input).settingsFor start disk
      = match findFile? (onDisk disk) start with
        | some file => (Disk.host input).readSettings file disk
        | none => (([], .ok .default), disk)) ∧
    (∀ present file, findFile? present start = some file →
      file.parent.components <+: start.components) ∧
    (.up ∉ start.components → start.Inward) ∧
    (start.Inward → ∀ present place file, findFile? present start = some file →
      file.parent.placeFrom place <+: start.placeFrom place) ∧
    (¬ start.Inward → ∀ depth, ∃ d : Directory, depth ≤ d.place.length ∧
      ∃ held file, findFile? (fun p => decide (p.placeFrom d.place = held)) start = some file ∧
        ¬ file.parent.placeFrom d.place <+: start.placeFrom d.place) := by
  refine ⟨fun _ _ => search_iff, fun input disk => settingsFor_host input start disk, ?_,
    Path.inward_of_up_notMem, ?_, ?_⟩
  · intro present file h
    obtain ⟨-, dir, hdir, name, -, hparent⟩ := exists_of_findFile? h
    rw [hparent]
    exact (Path.begins_of_mem_ancestors hdir).1
  · intro hinward present place file h
    obtain ⟨-, dir, hdir, name, -, hparent⟩ := exists_of_findFile? h
    rw [Path.placeFrom, hparent]
    exact hinward.placeFrom_begins hdir place
  · intro hnot depth
    obtain ⟨dir, hdir, d, hdepth, houtside⟩ := Path.exists_outside hnot depth
    obtain ⟨held, file, hfound, hplace⟩ := exists_findFile? hdir d.place
    refine ⟨d, hdepth, held, file, hfound, ?_⟩
    rw [hplace]
    exact houtside

/-- A disk with a settings file in a directory below the working directory. -/
def attic : Disk where
  nodes := (({} : OrderedMap Place Node).insert [['d']] .directory
    |>.insert [['d'], ['a']] .directory
    |>.insert [['d'], ['a'], "litweave.toml".toList] (.file ByteArray.empty))
  workingDirectory := [['d']]

/-- From a directory below it, the file is found above.  From `a/..`, which is the working
    directory, it is found below. -/
theorem attic_is_searched :
    (.up ∉ (Path.ofString "a/b").components ∧
      findFile? (onDisk attic) (Path.ofString "a/b") = some (Path.ofString "a/litweave.toml") ∧
      (Path.ofString "a/litweave.toml").parent.placeFrom attic.workingDirectory
        <+: (Path.ofString "a/b").placeFrom attic.workingDirectory) ∧
    (¬ (Path.ofString "a/..").Inward ∧
      findFile? (onDisk attic) (Path.ofString "a/..") = some (Path.ofString "a/litweave.toml") ∧
      ¬ (Path.ofString "a/litweave.toml").parent.placeFrom attic.workingDirectory
        <+: (Path.ofString "a/..").placeFrom attic.workingDirectory) := by
  obtain ⟨-, -, -, hinward, habove, -⟩ :=
    files_are_found_above_inward_starts (Path.ofString "a/b")
  obtain ⟨-, -, -, -, habove', -⟩ :=
    files_are_found_above_inward_starts (Path.ofString "a/..")
  have hnames : .up ∉ (Path.ofString "a/b").components := by decide
  have hfound : findFile? (onDisk attic) (Path.ofString "a/b")
      = some (Path.ofString "a/litweave.toml") := rfl
  have hfound' : findFile? (onDisk attic) (Path.ofString "a/..")
      = some (Path.ofString "a/litweave.toml") := rfl
  have hbelow : ¬ (Path.ofString "a/litweave.toml").parent.placeFrom attic.workingDirectory
      <+: (Path.ofString "a/..").placeFrom attic.workingDirectory := by decide
  refine ⟨⟨hnames, hfound, habove (hinward hnames) _ _ _ hfound⟩, ⟨?_, hfound', hbelow⟩⟩
  intro h
  exact hbelow (habove' h _ _ _ hfound')

end Settings

end Literate
