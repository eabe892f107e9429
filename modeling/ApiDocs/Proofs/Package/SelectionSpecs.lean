import ApiDocs.Package.Selection
import ApiDocs.Proofs.Text.Cut
import ApiDocs.Proofs.Text.Lines

/-!
# Selections as they are specified

A selection is specified by names to keep, by names to leave out, or by groups; at most one of the
three is given, and groups have to be told apart by their names. On a command line a group is
written as a text `group=name1,name2`. Such a text has exactly one equals sign, and a group in
front of it. Blanks around the group and around its names do not count, and neither do empty names
between commas.

* `Selection.Specifies`, `Selection.ofSpec_eq_ok_iff`: the selection of a specification.
* `Selection.WellWritten`, `Selection.groupWritten`: texts that specify a group, and the group.
* `Selection.groupsOfSpecs_eq_ok_iff`: which lists of texts specify groups, and which groups.
* `Selection.ofGroupSpecs_exact`: a selection of groups is read exactly from such lists, and it is
  found again after it has been written.
-/

namespace ApiDocs

theorem bind_eq_ok_iff {ε α β : Type} {x : Except ε α} {f : α → Except ε β} {v : β} :
    x >>= f = .ok v ↔ ∃ u, x = .ok u ∧ f u = .ok v := by
  cases x with
  | error e => simp [bind, Except.bind]
  | ok u => simp [bind, Except.bind]

namespace Selection

/-! ## Specifications -/

/-- The selection that is specified by names to keep, names to leave out and groups. At most one
of them is given. -/
inductive Specifies :
    Option NameList → Option NameList → Option (List (Text × NameList)) → Selection → Prop
  | all : Specifies none none none .all
  | whitelist (names : List Text) : Specifies (some (.many names)) none none (.whitelist names)
  | blacklist (names : List Text) : Specifies none (some (.many names)) none (.blacklist names)
  | groups (gs : List (Text × NameList)) (distinct : (gs.map (·.1)).Nodup) :
    Specifies none none (some gs) (.groups (gs.map fun g => (g.1, g.2.toList)))

/-- No name is found twice exactly if none of the names occurs twice or has occurred before. -/
theorem firstRepeated?_eq_none_iff {seen names : List Text} :
    firstRepeated? seen names = none ↔ names.Nodup ∧ ∀ n ∈ names, n ∉ seen := by
  induction names generalizing seen with
  | nil => simp [firstRepeated?]
  | cons n rest ih =>
    rw [firstRepeated?, List.nodup_cons, List.forall_mem_cons]
    by_cases hn : n ∈ seen
    · simp [hn]
    · -- the names behind `n` must be new to what has been seen with `n` among it
      have hnew : (∀ m ∈ rest, m ∉ n :: seen) ↔ n ∉ rest ∧ ∀ m ∈ rest, m ∉ seen := by
        constructor
        · intro h
          exact ⟨fun hmem => h n hmem List.mem_cons_self,
            fun m hm hseen => h m hm (List.mem_cons_of_mem n hseen)⟩
        · rintro ⟨hrest, hseen⟩ m hm hcons
          rcases List.mem_cons.mp hcons with rfl | hold
          · exact hrest hm
          · exact hseen m hm hold
      rw [if_neg (by simpa using hn), ih, hnew]
      tauto

theorem ofGroups_eq_ok_iff {gs : List (Text × NameList)} {s : Selection} :
    ofGroups gs = .ok s ↔
      (gs.map (·.1)).Nodup ∧ s = .groups (gs.map fun g => (g.1, g.2.toList)) := by
  have hnone : firstRepeated? [] (gs.map (·.1)) = none ↔ (gs.map (·.1)).Nodup := by
    simp [firstRepeated?_eq_none_iff]
  rw [ofGroups, ← hnone]
  cases firstRepeated? [] (gs.map (·.1)) with
  | none => simp [eq_comm]
  | some group => simp

theorem ofSpec_eq_ok_iff {whitelist blacklist : Option NameList}
    {groups : Option (List (Text × NameList))} {s : Selection} :
    ofSpec whitelist blacklist groups = .ok s ↔ Specifies whitelist blacklist groups s := by
  constructor
  · intro h
    unfold ofSpec at h
    split at h
    · cases h
      exact .all
    · rename_i names
      cases names with
      | one name => cases h
      | many names =>
        cases h
        exact .whitelist names
    · rename_i names
      cases names with
      | one name => cases h
      | many names =>
        cases h
        exact .blacklist names
    · obtain ⟨hdistinct, rfl⟩ := ofGroups_eq_ok_iff.mp h
      exact .groups _ hdistinct
    · cases h
  · intro h
    cases h with
    | all => rfl
    | whitelist names => rfl
    | blacklist names => rfl
    | groups gs hdistinct => exact ofGroups_eq_ok_iff.mpr ⟨hdistinct, rfl⟩

/-! ## Groups in writing -/

/-- What stands in front of the first equals sign. -/
def groupPart (spec : Text) : Text := spec.takeWhile (· != '=')

/-- What stands behind the first equals sign. -/
def namesPart (spec : Text) : Text := (spec.dropWhile (· != '=')).tail

/-- Texts with exactly one equals sign and more than blanks in front of it. -/
structure WellWritten (spec : Text) : Prop where
  one_sign : spec.count '=' = 1
  group : Text.blank (groupPart spec) = false

instance (spec : Text) : Decidable (WellWritten spec) :=
  decidable_of_iff (spec.count '=' = 1 ∧ Text.blank (groupPart spec) = false)
    ⟨fun h => ⟨h.1, h.2⟩, fun h => ⟨h.one_sign, h.group⟩⟩

/-- The group that a text specifies, with its names. -/
def groupWritten (spec : Text) : Text × List Text :=
  (Text.trim (groupPart spec),
    (((namesPart spec).splitOn ',').map Text.trim).filter fun name => !name.isEmpty)

/-- A group in a specification, with its names as a list. -/
def listed (g : Text × List Text) : Text × NameList := (g.1, .many g.2)

/-- The text that specifies a group with its names. -/
def writeGroup (g : Text × List Text) : Text := g.1 ++ "=".toList ++ ",".toList.intercalate g.2

theorem parts_append {group : Text} (h : '=' ∉ group) (names : Text) :
    groupPart (group ++ '=' :: names) = group ∧ namesPart (group ++ '=' :: names) = names := by
  have hgroup : ∀ c ∈ group, (c != '=') = true := by
    intro c hc
    simpa using ne_of_mem_of_not_mem hc h
  rw [groupPart, namesPart, List.takeWhile_append_of_pos hgroup,
    List.dropWhile_append_of_pos hgroup]
  simp

theorem wellWritten_append_iff {group names : Text} (h : '=' ∉ group) :
    WellWritten (group ++ '=' :: names) ↔ Text.blank group = false ∧ '=' ∉ names := by
  have hcount : (group ++ '=' :: names).count '=' = 1 ↔ '=' ∉ names := by
    rw [List.count_append, List.count_eq_zero.mpr h, List.count_cons_self, ← List.count_eq_zero]
    omega
  constructor
  · rintro ⟨hone, hgroup⟩
    rw [(parts_append h names).1] at hgroup
    exact ⟨hgroup, hcount.mp hone⟩
  · rintro ⟨hgroup, hnames⟩
    exact ⟨hcount.mpr hnames, by rw [(parts_append h names).1, hgroup]⟩

/-- A text specifies a group exactly if it is written as it should be. -/
theorem groupOfSpec_eq_ok_iff {spec : Text} {g : Text × NameList} :
    groupOfSpec spec = .ok g ↔ WellWritten spec ∧ g = listed (groupWritten spec) := by
  by_cases hsign : '=' ∈ spec
  · obtain ⟨group, names, rfl, hgroup⟩ := List.eq_append_cons_of_mem hsign
    have hcut : Text.cutAtFirst? (· == '=') (group ++ '=' :: names) = some (group, names) := by
      apply Text.cutAtFirst?_append
      · intro c hc
        simpa using ne_of_mem_of_not_mem hc hgroup
      · rfl
    obtain ⟨hfirst, hsecond⟩ := parts_append hgroup names
    rw [groupOfSpec, hcut, wellWritten_append_iff hgroup, listed, groupWritten, hfirst, hsecond]
    by_cases hblank : Text.blank group = true
    · simp [hblank]
    · by_cases hmore : '=' ∈ names
      · simp [hmore]
      · simp [hblank, hmore, eq_comm]
  · -- without an equals sign there is nothing to cut
    have hcut : Text.cutAtFirst? (· == '=') spec = none := by
      cases hcut : Text.cutAtFirst? (· == '=') spec with
      | none => rfl
      | some parts =>
        obtain ⟨c, rfl, hc⟩ := Text.cutAtFirst?_eq_some hcut
        obtain rfl : c = '=' := by simpa using hc
        simp at hsign
    have hnot : ¬ WellWritten spec := by
      rintro ⟨hone, -⟩
      rw [List.count_eq_zero.mpr hsign] at hone
      omega
    simp [groupOfSpec, hcut, hnot]

theorem groupsOfSpecs_eq_ok_iff {specs : List Text} {gs : List (Text × NameList)} :
    groupsOfSpecs specs = .ok gs ↔
      (∀ spec ∈ specs, WellWritten spec) ∧ gs = (specs.map groupWritten).map listed := by
  induction specs generalizing gs with
  | nil => simp [groupsOfSpecs, pure, Except.pure, eq_comm]
  | cons spec rest ih =>
    rw [groupsOfSpecs, List.mapM_cons, bind_eq_ok_iff, List.forall_mem_cons]
    constructor
    · rintro ⟨g, hg, hmore⟩
      obtain ⟨more, hrest, hgs⟩ := bind_eq_ok_iff.mp hmore
      obtain ⟨hspec, rfl⟩ := groupOfSpec_eq_ok_iff.mp hg
      obtain ⟨hspecs, rfl⟩ := ih.mp hrest
      cases hgs
      exact ⟨⟨hspec, hspecs⟩, rfl⟩
    · rintro ⟨⟨hspec, hspecs⟩, rfl⟩
      have hrest := ih.mpr ⟨hspecs, rfl⟩
      exact ⟨_, groupOfSpec_eq_ok_iff.mpr ⟨hspec, rfl⟩, bind_eq_ok_iff.mpr ⟨_, hrest, rfl⟩⟩

/-! ## Selections of groups -/

/-- The selection of the groups that are written so. -/
def ofGroupSpecs (specs : List Text) : Except SelectionError Selection := do
  let groups ← groupsOfSpecs specs
  ofSpec none none (some groups)

theorem map_fst_groupWritten (specs : List Text) :
    (specs.map groupWritten).map (·.1) = specs.map fun spec => Text.trim (groupPart spec) :=
  List.map_map

theorem ofGroups_map_listed_eq_ok_iff {gs : List (Text × List Text)} {s : Selection} :
    ofGroups (gs.map listed) = .ok s ↔ (gs.map (·.1)).Nodup ∧ s = .groups gs := by
  have hnames : (gs.map listed).map (·.1) = gs.map (·.1) := List.map_map
  have hgroups : (gs.map listed).map (fun g => (g.1, g.2.toList)) = gs := by
    rw [List.map_map]
    exact List.map_id gs
  rw [ofGroups_eq_ok_iff, hnames, hgroups]

theorem ofGroupSpecs_eq_ok_iff {specs : List Text} {s : Selection} :
    ofGroupSpecs specs = .ok s ↔
      ((∀ spec ∈ specs, WellWritten spec) ∧
          (specs.map fun spec => Text.trim (groupPart spec)).Nodup) ∧
        s = .groups (specs.map groupWritten) := by
  rw [ofGroupSpecs, bind_eq_ok_iff, ← map_fst_groupWritten]
  constructor
  · rintro ⟨gs, hgs, hs⟩
    obtain ⟨hwritten, rfl⟩ := groupsOfSpecs_eq_ok_iff.mp hgs
    obtain ⟨hdistinct, rfl⟩ := ofGroups_map_listed_eq_ok_iff.mp hs
    exact ⟨⟨hwritten, hdistinct⟩, rfl⟩
  · rintro ⟨⟨hwritten, hdistinct⟩, rfl⟩
    exact ⟨_, groupsOfSpecs_eq_ok_iff.mpr ⟨hwritten, rfl⟩,
      ofGroups_map_listed_eq_ok_iff.mpr ⟨hdistinct, rfl⟩⟩

/-- Words that are neither empty nor have blanks at their ends nor contain an equals sign. -/
structure SpecWord (s : Text) : Prop where
  ne_nil : s ≠ []
  trimmed : Text.trim s = s
  no_sign : '=' ∉ s

instance (s : Text) : Decidable (SpecWord s) :=
  decidable_of_iff (s ≠ [] ∧ Text.trim s = s ∧ '=' ∉ s)
    ⟨fun h => ⟨h.1, h.2.1, h.2.2⟩, fun h => ⟨h.ne_nil, h.trimmed, h.no_sign⟩⟩

theorem no_sign_intercalate {names : List Text} (h : ∀ n ∈ names, '=' ∉ n) :
    '=' ∉ ",".toList.intercalate names := by
  cases names with
  | nil => simp
  | cons n rest =>
    rw [Text.intercalate_cons]
    intro hmem
    rcases List.mem_append.mp hmem with hmem | hmem
    · exact h n List.mem_cons_self hmem
    · obtain ⟨m, hm, hin⟩ := List.mem_flatMap.mp hmem
      rcases List.mem_append.mp hin with hin | hin
      · simp at hin
      · exact h m (List.mem_cons_of_mem n hm) hin

/-- Names with commas between them are found again, also if there are none. -/
theorem names_of_intercalate {names : List Text}
    (h : ∀ n ∈ names, SpecWord n ∧ ',' ∉ n) :
    (((",".toList.intercalate names).splitOn ',').map Text.trim).filter
      (fun name => !name.isEmpty) = names := by
  by_cases hnil : names = []
  · rw [hnil]
    rfl
  · have hsplit : (",".toList.intercalate names).splitOn ',' = names :=
      List.splitOn_intercalate ',' (fun n hn => (h n hn).2) hnil
    have htrim : names.map Text.trim = names :=
      (List.map_congr_left fun n hn => (h n hn).1.trimmed).trans (List.map_id names)
    rw [hsplit, htrim, List.filter_eq_self]
    intro n hn
    simpa using (h n hn).1.ne_nil

/-- What is written of a group is read again. -/
theorem groupWritten_writeGroup {g : Text × List Text} (hgroup : SpecWord g.1)
    (hnames : ∀ n ∈ g.2, SpecWord n ∧ ',' ∉ n) :
    WellWritten (writeGroup g) ∧ groupWritten (writeGroup g) = g := by
  have hwrite : writeGroup g = g.1 ++ '=' :: ",".toList.intercalate g.2 := by
    simp [writeGroup]
  obtain ⟨hfirst, hsecond⟩ := parts_append hgroup.no_sign (",".toList.intercalate g.2)
  rw [hwrite]
  constructor
  · rw [wellWritten_append_iff hgroup.no_sign]
    exact ⟨Text.blank_eq_false_of_trimmed hgroup.trimmed hgroup.ne_nil,
      no_sign_intercalate fun n hn => (hnames n hn).1.no_sign⟩
  · rw [groupWritten, hfirst, hsecond, hgroup.trimmed, names_of_intercalate hnames]

/-- **Groups are read exactly from texts that are written as they should be.** A list of texts
gives a selection if and only if each of them has exactly one equals sign and more than blanks in
front of it, and what stands there differs, blanks at the ends apart, from text to text. The
selection then has the groups in the order of the texts, with the names between the commas that are
not blank. And groups that differ are found again after they have been written, if their names and
those of their members are words without equals signs and the latter have no commas. -/
theorem ofGroupSpecs_exact :
    (∀ specs : List Text,
      ((∃ s, ofGroupSpecs specs = .ok s) ↔
        (∀ spec ∈ specs, WellWritten spec) ∧
          (specs.map fun spec => Text.trim (groupPart spec)).Nodup) ∧
        ∀ s, ofGroupSpecs specs = .ok s → s = .groups (specs.map groupWritten)) ∧
      ∀ groups : List (Text × List Text), (groups.map (·.1)).Nodup →
        (∀ g ∈ groups, SpecWord g.1 ∧ ∀ n ∈ g.2, SpecWord n ∧ ',' ∉ n) →
          ofGroupSpecs (groups.map writeGroup) = .ok (.groups groups) := by
  constructor
  · intro specs
    constructor
    · constructor
      · rintro ⟨s, hs⟩
        exact (ofGroupSpecs_eq_ok_iff.mp hs).1
      · intro h
        exact ⟨_, ofGroupSpecs_eq_ok_iff.mpr ⟨h, rfl⟩⟩
    · intro s hs
      exact (ofGroupSpecs_eq_ok_iff.mp hs).2
  · intro groups hdistinct hgroups
    have hread : ∀ g ∈ groups, WellWritten (writeGroup g) ∧ groupWritten (writeGroup g) = g :=
      fun g hg => groupWritten_writeGroup (hgroups g hg).1 (hgroups g hg).2
    have hback : (groups.map writeGroup).map groupWritten = groups := by
      rw [List.map_map]
      exact (List.map_congr_left fun g hg => (hread g hg).2).trans (List.map_id groups)
    rw [ofGroupSpecs_eq_ok_iff, ← map_fst_groupWritten, hback]
    refine ⟨⟨?_, hdistinct⟩, rfl⟩
    intro spec hspec
    obtain ⟨g, hg, rfl⟩ := List.mem_map.mp hspec
    exact (hread g hg).1

/-- Blanks, empty names and a group without names; the second list is what such a selection looks
like when it is written. -/
theorem ofGroupSpecs_exact_blanks :
    let specs := [" io = read, ,write,".toList, "misc=".toList]
    let groups := [("io".toList, ["read".toList, "write".toList]), ("misc".toList, [])]
    (∀ spec ∈ specs, WellWritten spec) ∧
      (specs.map fun spec => Text.trim (groupPart spec)).Nodup ∧
        (∃ s, ofGroupSpecs specs = .ok s ∧ s = .groups groups) ∧
          groups.map writeGroup = ["io=read,write".toList, "misc=".toList] ∧
            ofGroupSpecs (groups.map writeGroup) = .ok (.groups groups) := by
  intro specs groups
  have hwritten : ∀ spec ∈ specs, WellWritten spec := by decide
  have hdistinct : (specs.map fun spec => Text.trim (groupPart spec)).Nodup := by decide
  have hgroups : specs.map groupWritten = groups := by decide
  obtain ⟨hread, hback⟩ := ofGroupSpecs_exact
  obtain ⟨s, hs⟩ := (hread specs).1.mpr ⟨hwritten, hdistinct⟩
  refine ⟨hwritten, hdistinct, ⟨s, hs, hgroups ▸ (hread specs).2 s hs⟩, rfl, ?_⟩
  exact hback groups (by decide) (by decide)

end Selection

end ApiDocs
