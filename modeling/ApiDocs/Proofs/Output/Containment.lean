import Mathlib.Data.List.DropRight
import Mathlib.Data.List.Forall2
import ApiDocs.Proofs.Output.GroupFiles
import ApiDocs.Proofs.Text.Lines

/-!
# Blocks stay in their folder

The blocks of groups go to a folder, whatever names the groups have. A name that could lead anywhere
else is refused before anything is done. So only files in the folder are written, each under a plain
name, and only the folder and what is missing on the way to it is made. In these file systems
there are no links: a path leads where its segments say, and the folder is where its path leads.

* `Output.Refused`: the names that a group may not have.
* `Output.IsFileOf`: the file of a group, inside any folder.
* `Place.OnWay`: the places that a path passes, with the folders above it.
* `FileSystem.performAll_makesOnWay`: the directories that are made.
* `Docs.deliveries_stay_in_folder`: what deliveries to a folder do, and what they leave alone.
-/

namespace ApiDocs

/-! ## Names that are refused -/

namespace Output

/-- The names that a group may not have: those that lead nowhere or up, those with a separator of
paths in them, and those with another extension than the one of output files. -/
def Refused (name : Text) : Prop :=
  name = [] ∨ name = ".".toList ∨ name = "..".toList ∨ '/' ∈ name ∨ '\\' ∈ name ∨
    ∃ stem extension : Text, stem ≠ [] ∧ name = stem ++ '.' :: extension ∧ '.' ∉ extension ∧
      extension ≠ "md".toList

theorem all_cutExtension?_eq_false_iff {name : Text} :
    (Path.cutExtension? name).all (·.2 == outputExtension) = false ↔
      ∃ stem extension : Text, stem ≠ [] ∧ name = stem ++ '.' :: extension ∧ '.' ∉ extension ∧
        extension ≠ "md".toList := by
  rw [← Bool.not_eq_true, Option.all_eq_true]
  constructor
  · intro h
    push Not at h
    obtain ⟨⟨stem, extension⟩, hcut, hother⟩ := h
    obtain ⟨hstem, hname, hdot⟩ := Path.cutExtension?_eq_some_iff.mp hcut
    exact ⟨stem, extension, hstem, hname, hdot, by simpa [outputExtension] using hother⟩
  · rintro ⟨stem, extension, hstem, hname, hdot, hother⟩ hall
    have hcut := Path.cutExtension?_eq_some_iff.mpr ⟨hstem, hname, hdot⟩
    exact hother (by simpa [outputExtension] using hall _ hcut)

theorem refused_iff {name : Text} : Refused name ↔ accepts name = false := by
  have hplain : isPlainName name = false ↔
      name = [] ∨ name = ".".toList ∨ name = "..".toList ∨ '/' ∈ name ∨ '\\' ∈ name := by
    rw [← Bool.not_eq_true, isPlainName_iff]
    simp only [Path.isIdle, Path.isUp]
    grind
  rw [accepts, Bool.and_eq_false_iff, hplain, all_cutExtension?_eq_false_iff, Refused]
  simp only [or_assoc]

instance : DecidablePred Refused := fun _ => decidable_of_iff _ refused_iff.symm

/-- A file that is inside a folder, whatever folder that is, and that goes by the name of a
group. -/
structure IsFileOf (name file : Text) : Prop where
  eq_or_eq : file = name ∨ file = name ++ ".md".toList
  extension : ".md".toList <:+ file
  slash : '/' ∉ file
  backslash : '\\' ∉ file
  place : ∀ root, Place.ofPath (Path.join root file) = (Place.ofPath root).child file

theorem isFileOf_fileName {name : Text} (h : accepts name = true) :
    IsFileOf name (fileName name) := by
  obtain ⟨hplain, hextension⟩ := Bool.and_eq_true_iff.mp h
  obtain ⟨hslash, hback, hidle, hup⟩ := isPlainName_iff.mp (isPlainName_fileName hplain)
  have heither : fileName name = name ∨ fileName name = name ++ ".md".toList := by
    rw [fileName]
    split
    · exact .inl rfl
    · exact .inr rfl
  refine ⟨heither, ?_, hslash, hback, fun root => Place.ofPath_join root hslash hidle hup⟩
  cases hcut : Path.cutExtension? name with
  | none =>
    rw [fileName_eq_of_none hcut]
    exact List.suffix_append _ _
  | some parts =>
    obtain ⟨stem, extension⟩ := parts
    obtain ⟨-, hname, -⟩ := Path.cutExtension?_eq_some_iff.mp hcut
    obtain rfl : extension = "md".toList := by simpa [hcut, outputExtension] using hextension
    rw [fileName, hcut, Option.isSome_some, if_pos rfl, hname]
    exact List.suffix_append stem ".md".toList

end Output

/-! ## On the way to a folder -/

namespace Path

theorem isAbsolute_iff {path : Text} :
    isAbsolute path = true ↔ ∃ s more, segments path = [] :: s :: more := by
  cases path with
  | nil => simp [isAbsolute, segments]
  | cons c path =>
    obtain ⟨first, more, hpath⟩ := List.exists_cons_of_ne_nil (List.splitOn_ne_nil '/' path)
    rw [segments, List.splitOn_cons_eq_if_modifyHead, hpath]
    by_cases hc : c = '/'
    · simp [isAbsolute, hc]
    · simp [isAbsolute, hc]

theorem prefix_trimIdle (ss : List Text) : trimIdle ss <+: ss := List.rdropWhile_prefix isIdle ss

theorem isIdle_of_getLast?_trimIdle {ss : List Text} {s : Text}
    (h : (trimIdle ss).getLast? = some s) : isIdle s = false := by
  have hne : ss.rdropWhile isIdle ≠ [] := fun hnil => by
    rw [trimIdle, ← List.rdropWhile, hnil] at h
    cases h
  have hlast := List.rdropWhile_last_not isIdle ss hne
  have hs : (ss.rdropWhile isIdle).getLast hne = s :=
    Option.some.inj ((List.getLast?_eq_some_getLast hne).symm.trans h)
  rw [hs] at hlast
  simpa using hlast

theorem segments_ofSegments {ss : List Text} (hne : ss ≠ []) (hss : ∀ s ∈ ss, '/' ∉ s) :
    segments (ofSegments ss) = ss :=
  List.splitOn_intercalate '/' hss hne

theorem isAbsolute_eq_of_segments {path folder : Text} {ss : List Text}
    (hfolder : segments folder = ss) (hfirst : ss <+: segments path) (hne : ss ≠ [])
    (hlast : ∀ s, ss.getLast? = some s → isIdle s = false) :
    isAbsolute folder = isAbsolute path := by
  rw [Bool.eq_iff_iff, isAbsolute_iff, isAbsolute_iff, hfolder]
  obtain ⟨rest, hrest⟩ := hfirst
  constructor
  · rintro ⟨s, more, rfl⟩
    exact ⟨s, more ++ rest, hrest.symm⟩
  · rintro ⟨s, more, hpath⟩
    rw [hpath] at hrest
    match ss, hne with
    | [first], _ =>
      -- The empty segment before the first slash would be the last one.
      obtain rfl : first = [] := (List.cons.inj hrest).1
      exact absurd (hlast [] rfl) (by decide)
    | first :: second :: others, _ =>
      obtain rfl : first = [] := (List.cons.inj hrest).1
      exact ⟨second, others, rfl⟩

/-- The folder of a path starts where the path does, and its segments are the first ones of the
path unless it leads nowhere from there. -/
theorem parent?_eq_some {path folder : Text} (h : parent? path = some folder) :
    isAbsolute folder = isAbsolute path ∧
      (segments folder <+: segments path ∨ ∀ s ∈ segments folder, isIdle s = true) := by
  unfold parent? at h
  split at h
  · split at h
    · cases h
    · rename_i hrelative
      cases h
      rw [Bool.or_eq_true, not_or, Bool.not_eq_true, Bool.not_eq_true] at hrelative
      exact ⟨hrelative.2.symm, .inr (by decide)⟩
  · dsimp only at h
    split at h
    · split at h
      · rename_i habsolute
        cases h
        exact ⟨habsolute.symm, .inr (by decide)⟩
      · rename_i hrelative
        rw [Bool.not_eq_true] at hrelative
        split at h
        · cases h
          exact ⟨hrelative.symm, .inr (by decide)⟩
        · cases h
          exact ⟨hrelative.symm, .inr (by decide)⟩
    · rename_i hne
      cases h
      have hfirst : trimIdle (trimIdle (segments path)).dropLast <+: segments path :=
        (prefix_trimIdle _).trans ((List.dropLast_prefix _).trans (prefix_trimIdle _))
      have hsegments := segments_ofSegments hne fun s hs =>
        Text.not_mem_of_mem_splitOn (hfirst.subset hs)
      refine ⟨isAbsolute_eq_of_segments hsegments hfirst hne ?_, .inl ?_⟩
      · exact fun s hs => isIdle_of_getLast?_trimIdle hs
      · rw [hsegments]
        exact hfirst

end Path

namespace Place

/-- A place that a path passes: some of its first segments lead there. -/
def OnWay (path : Text) (p : Place) : Prop :=
  ∃ way, way <+: Path.segments path ∧ p = way.foldl step (.start path)

namespace OnWay

theorem ofPath (path : Text) : OnWay path (.ofPath path) := ⟨_, List.prefix_rfl, rfl⟩

theorem start (path : Text) : OnWay path (.start path) := ⟨[], List.nil_prefix, rfl⟩

/-- A path that leads nowhere passes one place only. -/
theorem eq_start {path : Text} {p : Place} (h : OnWay path p)
    (hidle : ∀ s ∈ Path.segments path, Path.isIdle s = true) : p = .start path := by
  obtain ⟨way, hway, rfl⟩ := h
  exact FileSystem.foldl_step_of_idle (fun s hs => hidle s (hway.subset hs)) _

/-- What the folder of a path passes, the path passes. -/
theorem of_parent {path folder : Text} {p : Place} (hfolder : Path.parent? path = some folder)
    (h : OnWay folder p) : OnWay path p := by
  obtain ⟨habsolute, hway⟩ := Path.parent?_eq_some hfolder
  have hstart : Place.start folder = .start path := by rw [Place.start, Place.start, habsolute]
  rcases hway with hfirst | hidle
  · obtain ⟨way, hway, rfl⟩ := h
    exact ⟨way, hway.trans hfirst, by rw [hstart]⟩
  · rw [h.eq_start hidle, hstart]
    exact .start path

/-- The folders above a path lie on its way. -/
theorem of_mem_ancestors {path folder : Text} (h : folder ∈ Path.ancestors path) :
    OnWay path (.ofPath folder) := by
  rw [Path.ancestors] at h
  generalize path.length + 2 = n at h
  induction n generalizing path with
  | zero => cases h
  | succ n ih =>
    rw [Path.ancestorsFrom] at h
    rcases List.mem_cons.mp h with rfl | h
    · exact .ofPath folder
    · split at h
      · rename_i outer houter
        exact of_parent houter (ih h)
      · cases h

end OnWay

end Place

/-! ## What is made -/

namespace FileSystem

variable {fs fs' fs'' : FileSystem} {path : Text}

/-- One file system has no directories besides those of the other and some on the way of a path. -/
def MakesOnWay (path : Text) (fs fs' : FileSystem) : Prop :=
  ∀ p ∈ fs'.directories, p ∈ fs.directories ∨ Place.OnWay path p

namespace MakesOnWay

theorem refl (path : Text) (fs : FileSystem) : MakesOnWay path fs fs := fun _ hp => .inl hp

theorem trans (h : MakesOnWay path fs fs') (h' : MakesOnWay path fs' fs'') :
    MakesOnWay path fs fs'' := by
  intro p hp
  rcases h' p hp with hp | hp
  · exact h p hp
  · exact .inr hp

end MakesOnWay

theorem makeDirectories_makesOnWay (fs : FileSystem) (path : Text) :
    MakesOnWay path fs (fs.makeDirectories path).1 := by
  obtain ⟨made, hmade, heq⟩ := fs.makeDirectories_eq path
  rw [heq]
  intro p hp
  rcases List.mem_append.mp hp with hp | hp
  · exact .inl hp
  · obtain ⟨folder, hfolder, rfl⟩ := List.mem_map.mp hp
    exact .inr (.of_mem_ancestors (hmade hfolder))

theorem perform_makesOnWay (fs : FileSystem) (folder path content : Text) :
    MakesOnWay folder fs (fs.perform (.write folder path content)).1 := by
  have hmade := fs.makeDirectories_makesOnWay folder
  rw [perform]
  split
  · rename_i mid hmid
    rwa [hmid] at hmade
  · rename_i mid hmid
    rw [hmid] at hmade
    split
    · rename_i done hwrite
      obtain ⟨-, rfl⟩ := write?_eq_some hwrite
      exact hmade
    · exact hmade

/-- Deliveries to a folder make nothing but the folder and what is missing on the way to it. -/
theorem performAll_makesOnWay (fs : FileSystem) (folder : Text) (writings : List (Text × Text)) :
    MakesOnWay folder fs
      (fs.performAll (writings.map fun w => .write folder w.1 w.2)).1 := by
  induction writings generalizing fs with
  | nil => exact .refl folder fs
  | cons w rest ih =>
    have hfirst := fs.perform_makesOnWay folder w.1 w.2
    rw [List.map_cons, performAll]
    split
    · rename_i mid hmid
      rwa [hmid] at hfirst
    · rename_i mid hmid
      rw [hmid] at hfirst
      exact hfirst.trans (ih mid)

end FileSystem

/-! ## What deliveries to a folder leave alone -/

namespace Docs

open Output

theorem skipped_groupDeliveries (root : Text) (groups : List (Text × Text)) :
    (groupDeliveries (.directory root) groups).skipped =
      (groups.map (·.1)).filter (Refused ·) := by
  rw [groupDeliveries_directory, List.filter_map]
  simp [refused_iff, Function.comp_def]

theorem accepted_eq_filter (groups : List (Text × Text)) :
    (groups.filter (accepts ·.1)).map (·.1) = (groups.map (·.1)).filter (¬ Refused ·) := by
  rw [List.filter_map]
  simp [refused_iff, Function.comp_def]

theorem map_fst_groupWritings (root : Text) (groups : List (Text × Text)) :
    (groupWritings root groups).map (·.1) =
      (((groups.map (·.1)).filter (¬ Refused ·)).map fileName).map (Path.join root) := by
  rw [← accepted_eq_filter, groupWritings, List.map_map, List.map_map, List.map_map]
  rfl

theorem filterMap_path?_steps (root : Text) (groups : List (Text × Text)) :
    (groupDeliveries (.directory root) groups).steps.filterMap Delivery.path? =
      (groupWritings root groups).map (·.1) := by
  rw [steps_groupDeliveries, List.filterMap_map, ← List.filterMap_eq_map]
  rfl

theorem forall₂_isFileOf (names : List Text) :
    List.Forall₂ IsFileOf (names.filter (¬ Refused ·))
      ((names.filter (¬ Refused ·)).map fileName) := by
  rw [List.forall₂_map_right_iff, List.forall₂_same]
  intro name hname
  have hkept : ¬ Refused name := by simpa using (List.mem_filter.mp hname).2
  rw [refused_iff, Bool.not_eq_false] at hkept
  exact isFileOf_fileName hkept

/-- **Blocks stay in their folder.** Let the blocks of groups of any names be delivered to a
folder, so that nothing fails. The groups with names that are refused are skipped, in their order,
and the others are written, in theirs, each to a file inside the folder whose name is the name of
the group, with the extension added if need be. No other file is changed, no directory is made but
the folder and what is missing on the way to it, and if all groups are refused nothing is done. -/
theorem deliveries_stay_in_folder {root name : Text} {groups : List (Text × Text)} {d : Deliveries}
    {fs fs' : FileSystem} (hd : (grouped groups).deliveries (.directory root) name = .ok d)
    (hdone : fs.performAll d.steps = (fs', true)) :
    d.skipped = (groups.map (·.1)).filter (Refused ·) ∧
      (∃ files : List Text,
        d.steps.filterMap Delivery.path? = files.map (Path.join root) ∧
          List.Forall₂ IsFileOf ((groups.map (·.1)).filter (¬ Refused ·)) files) ∧
      (∀ q, (∀ path ∈ d.steps.filterMap Delivery.path?, Place.ofPath path ≠ q) →
        fs'.file? q = fs.file? q) ∧
      fs.directories ⊆ fs'.directories ∧
      (∀ p ∈ fs'.directories, p ∈ fs.directories ∨ Place.OnWay root p) ∧
      ((∀ g ∈ groups, Refused g.1) → fs' = fs) := by
  cases hd
  rw [filterMap_path?_steps]
  refine ⟨skipped_groupDeliveries root groups,
    ⟨_, map_fst_groupWritings root groups, forall₂_isFileOf _⟩, ?_⟩
  rw [steps_groupDeliveries] at hdone
  have hmade := fs.performAll_makesOnWay root (groupWritings root groups)
  rw [hdone] at hmade
  obtain ⟨hkept, -, hfile⟩ := FileSystem.read?_performAll hdone
  refine ⟨fun q hq => ?_, hkept, hmade, fun hrefused => ?_⟩
  · have hnone : FileSystem.lastContent? q (groupWritings root groups) = none :=
      FileSystem.lastContent?_eq_none fun w hw => hq w.1 (List.mem_map_of_mem hw)
    rw [hfile, hnone, Option.none_or]
  · have hnothing : groupWritings root groups = [] := by
      rw [groupWritings, List.filter_eq_nil_iff.mpr, List.map_nil]
      intro g hg
      rw [refused_iff.mp (hrefused g hg)]
      exact Bool.false_ne_true
    rw [hnothing] at hdone
    cases hdone
    rfl

/-- Names that lead out of the folder, or have another extension, do nothing. -/
theorem deliveries_stay_in_folder_docs :
    let groups : List (Text × Text) :=
      [("../escape".toList, "a\n".toList), ("io".toList, "b\n".toList),
        ("a\\b".toList, "c\n".toList), ("..".toList, "d\n".toList),
        ("misc.md".toList, "e\n".toList), ("end.".toList, "f\n".toList),
        (".md".toList, "g\n".toList)]
    let root := "docs/../api".toList
    let d := groupDeliveries (.directory root) groups
    let fs := FileSystem.ofFiles [("io.md".toList, "kept\n".toList)]
    let fs' := (fs.performAll d.steps).1
    (grouped groups).deliveries (.directory root) "pkg".toList = .ok d ∧
      fs.performAll d.steps = (fs', true) ∧
      d.skipped = ["../escape".toList, "a\\b".toList, "..".toList, "end.".toList] ∧
      d.steps.filterMap Delivery.path? =
        ["docs/../api/io.md".toList, "docs/../api/misc.md".toList, "docs/../api/.md.md".toList] ∧
      fs'.directories = [.ofPath "docs".toList, .ofPath "api".toList] ∧
      fs'.file? (.ofPath "io.md".toList) = some "kept\n".toList := by
  intro groups root d fs fs'
  have hd : (grouped groups).deliveries (.directory root) "pkg".toList = .ok d := rfl
  have hdone : fs.performAll d.steps = (fs', true) := by decide
  obtain ⟨hskipped, -, hfile, -⟩ := deliveries_stay_in_folder hd hdone
  refine ⟨hd, hdone, hskipped.trans (by decide), by decide, by decide, ?_⟩
  exact (hfile _ (by decide)).trans (by decide)

end Docs

end ApiDocs
