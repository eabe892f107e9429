import ApiDocs.Proofs.Output.FileNames

/-!
# The files of groups

The blocks of groups go to files of a folder, one after the other. A group keeps its file unless
a later group stands for the same one: the names of the two are then equal but for the extension,
which the file of the one gets and the name of the other has. Nothing keeps two groups from having
such names, and the block of the earlier one is lost although its file is reported.

* `Docs.groupDeliveries_directory`: which blocks go to which files, and which groups are skipped.
* `Output.read?_groupPath`: what the file of a group contains in the end.
* `Output.read?_groupPath_lost`: a block that is lost.
-/

namespace ApiDocs

namespace Output

/-- The path of the file of a group inside a folder. -/
def groupPath (root name : Text) : Text := Path.join root (fileName name)

/-- The files of different names lie in different places. -/
theorem ofPath_groupPath_eq_iff (root : Text) {n m : Text} (hn : isPlainName n = true)
    (hm : isPlainName m = true) :
    Place.ofPath (groupPath root n) = Place.ofPath (groupPath root m) ↔
      fileName n = fileName m := by
  obtain ⟨hn1, -, hn2, hn3⟩ := isPlainName_iff.mp (isPlainName_fileName hn)
  obtain ⟨hm1, -, hm2, hm3⟩ := isPlainName_iff.mp (isPlainName_fileName hm)
  rw [groupPath, groupPath, Place.ofPath_join root hn1 hn2 hn3, Place.ofPath_join root hm1 hm2 hm3]
  constructor
  · intro heq
    have hnames : (Place.ofPath root).names ++ [fileName n] =
        (Place.ofPath root).names ++ [fileName m] := congrArg Place.names heq
    simpa using hnames
  · intro heq
    rw [heq]

end Output

/-! ## Deliveries of groups -/

namespace Docs

open Output

theorem groupDeliveries_directory (root : Text) (groups : List (Text × Text)) :
    groupDeliveries (.directory root) groups =
      ⟨(groups.filter (accepts ·.1)).map fun g => .write root (groupPath root g.1) g.2,
        (groups.filter (!accepts ·.1)).map (·.1)⟩ := by
  induction groups with
  | nil => rfl
  | cons g rest ih =>
    obtain ⟨name, block⟩ := g
    cases haccepts : accepts name with
    | true =>
      simp [groupDeliveries, Sink.deliver_directory root block haccepts, ih, haccepts, groupPath]
    | false =>
      obtain ⟨e, he⟩ := Sink.deliver_directory_of_not_accepts root block haccepts
      simp [groupDeliveries, he, ih, haccepts]

/-- A group is skipped exactly if a block may not have its name. -/
theorem not_mem_skipped_iff (root : Text) {groups : List (Text × Text)} {g : Text × Text}
    (hg : g ∈ groups) :
    g.1 ∉ (groupDeliveries (.directory root) groups).skipped ↔ accepts g.1 = true := by
  rw [groupDeliveries_directory]
  constructor
  · intro hskipped
    by_contra hrefused
    exact hskipped (List.mem_map.mpr ⟨g, List.mem_filter.mpr ⟨hg, by simpa using hrefused⟩, rfl⟩)
  · intro haccepts hskipped
    obtain ⟨h, hh, hname⟩ := List.mem_map.mp hskipped
    have hrefused := (List.mem_filter.mp hh).2
    rw [hname, haccepts] at hrefused
    cases hrefused

/-- The files of the groups that are not skipped are reported, in the order of the groups. -/
theorem filterMap_path?_groupDeliveries (root : Text) (groups : List (Text × Text)) :
    (groupDeliveries (.directory root) groups).steps.filterMap Delivery.path? =
      (groups.filter (·.1 ∉ (groupDeliveries (.directory root) groups).skipped)).map
        fun g => groupPath root g.1 := by
  have hkept : groups.filter (·.1 ∉ (groupDeliveries (.directory root) groups).skipped) =
      groups.filter (accepts ·.1) := by
    refine List.filter_congr fun g hg => ?_
    rw [Bool.eq_iff_iff, decide_eq_true_iff]
    exact not_mem_skipped_iff root hg
  rw [hkept, groupDeliveries_directory, List.filterMap_map, ← List.filterMap_eq_map]
  rfl

end Docs

namespace FileSystem

/-! ## The last content of a place -/

theorem lastContent?_append (q : Place) (before after : List (Text × Text)) :
    lastContent? q (before ++ after) = (lastContent? q after).or (lastContent? q before) := by
  induction before with
  | nil => simp [lastContent?]
  | cons w before ih => rw [List.cons_append, lastContent?, lastContent?, ih, Option.or_assoc]

theorem lastContent?_eq_none {q : Place} {writings : List (Text × Text)}
    (h : ∀ w ∈ writings, Place.ofPath w.1 ≠ q) : lastContent? q writings = none := by
  induction writings with
  | nil => rfl
  | cons w rest ih =>
    rw [lastContent?, ih fun x hx => h x (List.mem_cons_of_mem _ hx),
      if_neg (h w List.mem_cons_self)]
    rfl

/-- A place has the content of a writing after which nothing is written to it. -/
theorem lastContent?_of_last {path content : Text} {after : List (Text × Text)}
    (h : ∀ w ∈ after, Place.ofPath w.1 ≠ .ofPath path) (before : List (Text × Text)) :
    lastContent? (.ofPath path) (before ++ (path, content) :: after) = some content := by
  rw [lastContent?_append, lastContent?, lastContent?_eq_none h, if_pos rfl]
  rfl

end FileSystem

/-! ## What is found in the end -/

namespace Output

open FileSystem

/-- The writings of the groups that are not skipped. -/
def groupWritings (root : Text) (groups : List (Text × Text)) : List (Text × Text) :=
  (groups.filter (accepts ·.1)).map fun g => (groupPath root g.1, g.2)

theorem steps_groupDeliveries (root : Text) (groups : List (Text × Text)) :
    (Docs.groupDeliveries (.directory root) groups).steps =
      (groupWritings root groups).map fun w => .write root w.1 w.2 := by
  rw [Docs.groupDeliveries_directory, groupWritings, List.map_map]
  rfl

theorem name_ne_of_nodup {before after : List (Text × Text)} {g : Text × Text}
    (hnames : ((before ++ g :: after).map (·.1)).Nodup) : ∀ h ∈ after, h.1 ≠ g.1 := by
  intro h hh hsame
  rw [List.map_append, List.map_cons, List.nodup_append] at hnames
  exact (List.nodup_cons.mp hnames.2.1).1 (hsame ▸ List.mem_map_of_mem hh)

theorem ne_nil_of_accepts {name : Text} (h : accepts name = true) : name ≠ [] := by
  rintro rfl
  cases h

section Found

variable {root : Text} {fs fs' : FileSystem} {before after : List (Text × Text)} {g : Text × Text}
  (hdone : fs.performAll (Docs.groupDeliveries (.directory root) (before ++ g :: after)).steps =
    (fs', true))
  (hg : accepts g.1 = true)

include hdone hg

/-- A group has its block in its file, if no later one has this file. -/
theorem read?_of_last (hlast : ∀ h ∈ after, accepts h.1 = true → fileName h.1 ≠ fileName g.1) :
    fs'.read? (groupPath root g.1) = some g.2 := by
  have hsplit : groupWritings root (before ++ g :: after) =
      groupWritings root before ++ (groupPath root g.1, g.2) :: groupWritings root after := by
    simp [groupWritings, hg]
  rw [steps_groupDeliveries, hsplit] at hdone
  obtain ⟨-, hlocate, hfile⟩ := read?_performAll hdone
  have hfound : fs'.locate (groupPath root g.1) = .place (.ofPath (groupPath root g.1)) :=
    hlocate (groupPath root g.1, g.2) (by simp)
  have hfree : ∀ w ∈ groupWritings root after,
      Place.ofPath w.1 ≠ Place.ofPath (groupPath root g.1) := by
    intro w hw
    obtain ⟨h, hmem, rfl⟩ := List.mem_map.mp hw
    obtain ⟨hafter, haccepts⟩ := List.mem_filter.mp hmem
    rw [ne_eq, ofPath_groupPath_eq_iff root (Bool.and_eq_true_iff.mp haccepts).1
      (Bool.and_eq_true_iff.mp hg).1]
    exact hlast h hafter haccepts
  rw [read?_of_locate hfound, hfile, lastContent?_of_last hfree]
  rfl

variable (hnames : ((before ++ g :: after).map (·.1)).Nodup)

include hnames

theorem read?_of_not_sharesFile
    (hfree : ∀ h ∈ after, accepts h.1 = true → ¬ SharesFile g.1 h.1) :
    fs'.read? (groupPath root g.1) = some g.2 := by
  refine read?_of_last hdone hg fun h hh haccepts hsame => ?_
  rcases (fileName_eq_iff (ne_nil_of_accepts hg) (ne_nil_of_accepts haccepts)).mp hsame.symm with
    heq | hshares
  · exact name_ne_of_nodup hnames h hh heq.symm
  · exact hfree h hh haccepts hshares

/-- A later group whose name is the same but for the extension has the file to itself. -/
theorem read?_of_sharesFile {h : Text × Text} (hh : h ∈ after) (haccepts : accepts h.1 = true)
    (hshares : SharesFile g.1 h.1) : fs'.read? (groupPath root g.1) = some h.2 := by
  have hsame : fileName g.1 = fileName h.1 :=
    (fileName_eq_iff (ne_nil_of_accepts hg) (ne_nil_of_accepts haccepts)).mpr (.inr hshares)
  have hpath : groupPath root g.1 = groupPath root h.1 := by rw [groupPath, groupPath, hsame]
  have hother := name_ne_of_nodup hnames
  obtain ⟨between, rest, rfl⟩ := List.append_of_mem hh
  have hsplit : before ++ g :: (between ++ h :: rest) = (before ++ g :: between) ++ h :: rest := by
    simp
  rw [hsplit] at hdone hnames
  rw [hpath]
  refine read?_of_last hdone haccepts fun k hk _ hthird => ?_
  -- A third group with this file would have the name of one of the two.
  rcases eq_or_eq_of_fileName_eq hsame (hsame.trans hthird.symm) with heq | heq | heq
  · exact hother h hh heq.symm
  · exact hother k (by simp [hk]) heq.symm
  · exact name_ne_of_nodup hnames k hk heq.symm

end Found

/-- **What the files of groups contain.** Let the blocks of groups with different names be
delivered to a folder, so that nothing fails. The files of the groups that are not skipped are
reported in their order. In the end the file of a group contains its block, if the name of no
later group is the same but for the extension; otherwise it contains the block of that group. -/
theorem read?_groupPath {root name : Text} {groups : List (Text × Text)} {d : Deliveries}
    {fs fs' : FileSystem} (hnames : (groups.map (·.1)).Nodup)
    (hd : (Docs.grouped groups).deliveries (.directory root) name = .ok d)
    (hdone : fs.performAll d.steps = (fs', true)) :
    d.steps.filterMap Delivery.path? =
        ((groups.filter (·.1 ∉ d.skipped)).map fun g => groupPath root g.1) ∧
      ∀ before g after, groups = before ++ g :: after → g.1 ∉ d.skipped →
        ((∀ h ∈ after, h.1 ∉ d.skipped → ¬ SharesFile g.1 h.1) →
            fs'.read? (groupPath root g.1) = some g.2) ∧
          ∀ h ∈ after, h.1 ∉ d.skipped → SharesFile g.1 h.1 →
            fs'.read? (groupPath root g.1) = some h.2 := by
  cases hd
  refine ⟨Docs.filterMap_path?_groupDeliveries root groups, ?_⟩
  rintro before g after rfl hg
  have hkept : ∀ h ∈ g :: after,
      (h.1 ∉ (Docs.groupDeliveries (.directory root) (before ++ g :: after)).skipped ↔
        accepts h.1 = true) :=
    fun h hh => Docs.not_mem_skipped_iff root (List.mem_append_right before hh)
  have haccepts := (hkept g List.mem_cons_self).mp hg
  refine ⟨fun hfree => ?_, fun h hh hh' hshares => ?_⟩
  · refine read?_of_not_sharesFile hdone haccepts hnames fun h hh hok => ?_
    exact hfree h hh ((hkept h (List.mem_cons_of_mem g hh)).mpr hok)
  · have hok := (hkept h (List.mem_cons_of_mem g hh)).mp hh'
    exact read?_of_sharesFile hdone haccepts hnames hh hok hshares

/-- Of four groups one is skipped, and one has a file of its own between two that share one. -/
theorem read?_groupPath_four :
    let groups : List (Text × Text) :=
      [("io".toList, "io docs\n".toList), ("bad.rst".toList, "bad docs\n".toList),
        ("misc".toList, "misc docs\n".toList), ("io.md".toList, "other docs\n".toList)]
    let root := "docs/api".toList
    let d := Docs.groupDeliveries (.directory root) groups
    let fs' := (FileSystem.empty.performAll d.steps).1
    (groups.map (·.1)).Nodup ∧
      (Docs.grouped groups).deliveries (.directory root) "pkg".toList = .ok d ∧
      FileSystem.empty.performAll d.steps = (fs', true) ∧ d.skipped = ["bad.rst".toList] ∧
      fs'.read? (groupPath root "misc".toList) = some "misc docs\n".toList ∧
      fs'.read? (groupPath root "io".toList) = some "other docs\n".toList := by
  intro groups root d fs'
  have hnames : (groups.map (·.1)).Nodup := by decide
  have hd : (Docs.grouped groups).deliveries (.directory root) "pkg".toList = .ok d := rfl
  have hdone : FileSystem.empty.performAll d.steps = (fs', true) := by decide
  obtain ⟨-, hread⟩ := read?_groupPath hnames hd hdone
  refine ⟨hnames, hd, hdone, by decide, ?_, ?_⟩
  · exact (hread (groups.take 2) _ (groups.drop 3) rfl (by decide)).1 (by decide)
  · exact (hread [] _ (groups.drop 1) rfl (by decide)).2 _
      (List.mem_cons_of_mem _ (List.mem_cons_of_mem _ List.mem_cons_self)) (by decide) (by decide)

/-- Two groups for one file: both are reported as written to it, and the first block is lost. -/
theorem read?_groupPath_lost :
    let groups : List (Text × Text) :=
      [("io".toList, "io docs\n".toList), ("io.md".toList, "other docs\n".toList)]
    let d := Docs.groupDeliveries (.directory "out".toList) groups
    let fs' := (FileSystem.empty.performAll d.steps).1
    (groups.map (·.1)).Nodup ∧ d.skipped = [] ∧
      FileSystem.empty.performAll d.steps = (fs', true) ∧
      d.steps.filterMap Delivery.path? = ["out/io.md".toList, "out/io.md".toList] ∧
      fs'.read? "out/io.md".toList = some "other docs\n".toList := by
  decide

end Output

end ApiDocs
