import ApiDocs.Proofs.Package.SelectionSpecs
import ApiDocs.Settings.Basic

/-!
# What wins where command line and configuration file differ

Both the command line and the configuration file may select members, and both may give a file or
a folder for output. Here the command line wins as a whole: if it selects, nothing of the configured
selection counts, not even that it makes no sense; if it gives a file or a folder, neither of the
configured two counts. Everywhere else it wins setting by setting, and a switch is on if either of
the two turns it on.

* `CommandLine.Arguments.Asks`: the selection that counts.
* `CommandLine.Arguments.effective`: the output file and the output folder that count.
* `Settings.Merged`, `Settings.resolve_eq_ok_iff`: the settings of a run.
* `Settings.exists_resolve_iff`: when there are any.
* `Settings.resolve_of_selects`, `Settings.resolve_of_directs`: what is configured and does not
  count.
-/

namespace ApiDocs

namespace CommandLine

/-! ## Accepted command lines -/

namespace Arguments

/-- Members are selected by one list at most. -/
def SelectsOnce (a : Arguments) : Prop :=
  ∀ l m, (a.values? l).isSome = true → (a.values? m).isSome = true → l = m

/-- Whether the command line selects members. -/
def selects (a : Arguments) : Bool :=
  (a.values? .whitelist).isSome || (a.values? .blacklist).isSome ||
    (a.values? .outputGroups).isSome

/-- Whether the command line gives a file or a folder for output. -/
def directs (a : Arguments) : Bool := (a.value? .outfile).isSome || (a.value? .outfolder).isSome

/-- The path for output that counts: if the command line gives any such path, it is its own one or
none, and else the configured one. -/
def effective (a : Arguments) (s : Setting) (configured : Option Text) : Option Text :=
  if a.directs then a.value? s else configured

end Arguments

theorem selectsOnce_of_isConsistent {a : Arguments} (h : isConsistent a = true) :
    a.SelectsOnce := by
  simp only [isConsistent, Bool.and_eq_true, decide_eq_true_eq] at h
  have hone := h.1.1
  have hgiven : ∀ l, (a.values? l).isSome = true →
      l ∈ [Listing.whitelist, .blacklist, .outputGroups].filter (a.values? · |>.isSome) := by
    intro l hl
    apply List.mem_filter.mpr
    exact ⟨by cases l <;> simp, hl⟩
  intro l m hl hm
  -- of the three lists that there are at most one is given
  generalize List.filter _ _ = given at hone hgiven
  match given with
  | [] => exact absurd (hgiven l hl) List.not_mem_nil
  | [only] => rw [List.mem_singleton.mp (hgiven l hl), List.mem_singleton.mp (hgiven m hm)]
  | _ :: _ :: _ => simp at hone

theorem selectsOnce_of_parse {words : List Text} {a : Arguments} (h : parse words = .run a) :
    a.SelectsOnce := by
  unfold parse at h
  split at h
  · cases h
  · cases h
  · cases h
  · split at h
    · rename_i hconsistent
      cases h
      exact selectsOnce_of_isConsistent hconsistent
    · cases h

namespace Arguments

/-! ## The selection that counts -/

/-- The selection that a command line and a configuration file ask for. The configured one counts
if the command line does not select. -/
inductive Asks (a : Arguments) (c : SelectionConfig) : Selection → Prop
  | whitelist {names : List Text} (given : a.values? .whitelist = some names) :
    Asks a c (.whitelist names)
  | blacklist {names : List Text} (given : a.values? .blacklist = some names) :
    Asks a c (.blacklist names)
  | groups {specs : List Text} (given : a.values? .outputGroups = some specs)
    (written : ∀ spec ∈ specs, Selection.WellWritten spec)
    (distinct : (specs.map fun spec => Text.trim (Selection.groupPart spec)).Nodup) :
    Asks a c (.groups (specs.map Selection.groupWritten))
  | configured {s : Selection} (silent : a.selects = false)
    (specified : Selection.Specifies c.whitelist c.blacklist c.groupPairs s) : Asks a c s

/-- Whether groups are asked for. -/
def asksForGroups (a : Arguments) (c : SelectionConfig) : Bool :=
  if a.selects then (a.values? .outputGroups).isSome else c.groups.isSome

theorem selection?_eq_none_iff {a : Arguments} : a.selection? = none ↔ a.selects = false := by
  unfold selection? selects
  split <;> simp_all

theorem selects_of_values? {a : Arguments} {l : Listing} {vs : List Text}
    (h : a.values? l = some vs) : a.selects = true := by
  unfold selects
  cases l <;> simp [h]

namespace SelectsOnce

variable {a : Arguments} {vs : List Text}

theorem values?_eq_none (h : a.SelectsOnce) {l m : Listing} (given : a.values? l = some vs)
    (hne : l ≠ m) : a.values? m = none := by
  by_contra hm
  apply hne
  apply h l m
  · rw [given]
    rfl
  · exact Option.isSome_iff_ne_none.mpr hm

theorem selection?_whitelist (h : a.SelectsOnce) (given : a.values? .whitelist = some vs) :
    a.selection? = some (.ok (.whitelist vs)) := by
  have hb := h.values?_eq_none given (m := .blacklist) (by simp)
  have hg := h.values?_eq_none given (m := .outputGroups) (by simp)
  simp only [selection?, given, hb, hg]
  rfl

theorem selection?_blacklist (h : a.SelectsOnce) (given : a.values? .blacklist = some vs) :
    a.selection? = some (.ok (.blacklist vs)) := by
  have hw := h.values?_eq_none given (m := .whitelist) (by simp)
  have hg := h.values?_eq_none given (m := .outputGroups) (by simp)
  simp only [selection?, given, hw, hg]
  rfl

theorem selection?_groups (h : a.SelectsOnce) (given : a.values? .outputGroups = some vs) :
    a.selection? = some (Selection.ofGroupSpecs vs) := by
  have hw := h.values?_eq_none given (m := .whitelist) (by simp)
  have hb := h.values?_eq_none given (m := .blacklist) (by simp)
  simp only [selection?, given, hw, hb]
  rfl

end SelectsOnce

end Arguments

end CommandLine

/-! ## Destinations -/

namespace Destination

/-- The file, if there is one. -/
def file? : Destination → Option Text
  | file path => some path
  | unset | folder _ => none

/-- The folder, if there is one. -/
def folder? : Destination → Option Text
  | folder path => some path
  | unset | file _ => none

theorem isFile_eq (d : Destination) : d.isFile = d.file?.isSome := by
  cases d with
  | unset => rfl
  | file path => rfl
  | folder path => rfl

/-- There is no destination with both a file and a folder. -/
theorem ofPaths_eq_ok_iff {file folder : Option Text} {d : Destination} :
    ofPaths file folder = .ok d ↔ d.file? = file ∧ d.folder? = folder := by
  cases file <;> cases folder <;> cases d <;> simp [ofPaths, file?, folder?, eq_comm]

theorem exists_ofPaths_iff {file folder : Option Text} :
    (∃ d, ofPaths file folder = .ok d) ↔ ¬ (file.isSome = true ∧ folder.isSome = true) := by
  cases file <;> cases folder <;> simp [ofPaths]

end Destination

theorem outputPaths_eq (a : CommandLine.Arguments) (c : OutputConfig) :
    outputPaths a c = (a.effective .outfile c.outfile, a.effective .outfolder c.outfolder) := by
  unfold outputPaths CommandLine.Arguments.effective CommandLine.Arguments.directs
  split
  · rename_i hfile hfolder
    simp [hfile, hfolder]
  · rename_i hgiven
    have hdirects : ((a.value? .outfile).isSome || (a.value? .outfolder).isSome) = true := by
      by_contra hnot
      simp only [Bool.or_eq_true, not_or, Bool.not_eq_true, Option.isSome_eq_false_iff,
        Option.isNone_iff_eq_none] at hnot
      exact hgiven hnot.1 hnot.2
    simp [hdirects]

/-! ## Settings -/

theorem mapError_eq_ok_iff {ε δ α : Type} {x : Except ε α} {f : ε → δ} {v : α} :
    x.mapError f = .ok v ↔ x = .ok v := by
  cases x with
  | error e => simp [Except.mapError]
  | ok u => simp [Except.mapError]

namespace Settings

open CommandLine (Arguments)

variable {a : Arguments} {c : Config} {s : Settings}

/-- The selection of a run is the one that counts. -/
theorem selectionOf_eq_ok_iff {c : SelectionConfig} {s : Selection} (h : a.SelectsOnce) :
    selectionOf a c = .ok s ↔ a.Asks c s := by
  constructor
  · intro hs
    unfold selectionOf at hs
    split at hs
    · rename_i chosen hchosen
      rw [mapError_eq_ok_iff] at hs
      rw [hs] at hchosen
      have hselects : a.selects = true := by
        by_contra hnot
        rw [Bool.not_eq_true, ← CommandLine.Arguments.selection?_eq_none_iff, hchosen] at hnot
        cases hnot
      simp only [CommandLine.Arguments.selects, Bool.or_eq_true, Option.isSome_iff_exists]
        at hselects
      -- the list by which the command line selects determines the selection
      rcases hselects with (⟨names, given⟩ | ⟨names, given⟩) | ⟨specs, given⟩
      · rw [h.selection?_whitelist given] at hchosen
        cases hchosen
        exact .whitelist given
      · rw [h.selection?_blacklist given] at hchosen
        cases hchosen
        exact .blacklist given
      · rw [h.selection?_groups given] at hchosen
        obtain ⟨⟨hwritten, hdistinct⟩, rfl⟩ :=
          Selection.ofGroupSpecs_eq_ok_iff.mp (Option.some.inj hchosen)
        exact .groups given hwritten hdistinct
    · rename_i hsilent
      rw [mapError_eq_ok_iff, SelectionConfig.selection, Selection.ofSpec_eq_ok_iff] at hs
      exact .configured (CommandLine.Arguments.selection?_eq_none_iff.mp hsilent) hs
  · intro hs
    cases hs with
    | whitelist given =>
      rw [selectionOf, h.selection?_whitelist given]
      rfl
    | blacklist given =>
      rw [selectionOf, h.selection?_blacklist given]
      rfl
    | groups given hwritten hdistinct =>
      rw [selectionOf, h.selection?_groups given,
        Selection.ofGroupSpecs_eq_ok_iff.mpr ⟨⟨hwritten, hdistinct⟩, rfl⟩]
      rfl
    | configured hsilent hspecified =>
      rw [selectionOf, CommandLine.Arguments.selection?_eq_none_iff.mpr hsilent]
      exact mapError_eq_ok_iff.mpr (Selection.ofSpec_eq_ok_iff.mpr hspecified)

/-- Groups are asked for if the selection that counts has groups. -/
theorem isGrouped_of_asks {c : SelectionConfig} {s : Selection} (h : a.SelectsOnce)
    (hs : a.Asks c s) : s.isGrouped = a.asksForGroups c := by
  unfold CommandLine.Arguments.asksForGroups
  cases hs with
  | whitelist given =>
    rw [if_pos (CommandLine.Arguments.selects_of_values? given),
      h.values?_eq_none given (m := .outputGroups) (by simp)]
    rfl
  | blacklist given =>
    rw [if_pos (CommandLine.Arguments.selects_of_values? given),
      h.values?_eq_none given (m := .outputGroups) (by simp)]
    rfl
  | groups given hwritten hdistinct =>
    rw [if_pos (CommandLine.Arguments.selects_of_values? given), given]
    rfl
  | configured hsilent hspecified =>
    have hgroups : c.groupPairs.isSome = c.groups.isSome := Option.isSome_map
    rw [if_neg (by simp [hsilent]), ← hgroups]
    generalize c.whitelist = whitelist, c.blacklist = blacklist, c.groupPairs = groups
      at hspecified
    cases hspecified <;> rfl

/-- The value of a setting: the one on the command line, else the configured one, else the
default. -/
inductive Chosen : Option Text → Option Text → Text → Text → Prop
  | given (v : Text) (configured : Option Text) (fallback : Text) :
    Chosen (some v) configured fallback v
  | configured (v fallback : Text) : Chosen none (some v) fallback v
  | fallback (v : Text) : Chosen none none v v

theorem chosen_iff {given configured : Option Text} {fallback v : Text} :
    Chosen given configured fallback v ↔ v = (given.or configured).getD fallback := by
  constructor
  · intro h
    cases h <;> rfl
  · rintro rfl
    cases given with
    | some v => exact .given v configured fallback
    | none =>
      cases configured with
      | some v => exact .configured v fallback
      | none => exact .fallback fallback

/-- The settings that a command line and a configuration file make together. -/
structure Merged (a : Arguments) (c : Config) (s : Settings) : Prop where
  parser : Chosen (a.value? .parser) c.strategy.parser "rst".toList s.strategies.parser
  renderer : Chosen (a.value? .renderer) c.strategy.renderer "markdown".toList
    s.strategies.renderer
  styler : Chosen (a.value? .styler) c.strategy.styler "pycode".toList s.strategies.styler
  language : Chosen (a.value? .language) c.strategy.language "python".toList s.assemble.language
  inherited : s.assemble.includeInherited = true ↔
    a.has .inherited = true ∨ c.output.includeInherited = some true
  skipDocstring : s.container.skipDocstring = true ↔
    a.has .skipDocstring = true ∨ c.output.skipDocstring = some true
  omitVersion : s.container.omitVersion = true ↔
    a.has .omitVersion = true ∨ c.output.omitVersion = some true
  selection : a.Asks c.selection s.container.selection
  outfile : s.destination.file? = a.effective .outfile c.output.outfile
  outfolder : s.destination.folder? = a.effective .outfolder c.output.outfolder
  /-- Groups do not go to one file. -/
  ungrouped : ¬ (s.destination.file?.isSome = true ∧ s.container.selection.isGrouped = true)

/-- A switch is on if the command line or the configuration file turns it on. -/
theorem switch_iff {given on : Bool} {configured : Option Bool} :
    (on = true ↔ given = true ∨ configured = some true) ↔
      on = (given || configured.getD false) := by
  have hget : configured = some true ↔ configured.getD false = true := by
    cases configured with
    | none => simp
    | some b => simp
  rw [hget, ← Bool.or_eq_true, ← Bool.eq_iff_iff]

/-- The settings with a selection and a destination. -/
def settled (a : Arguments) (c : Config) (sel : Selection) (d : Destination) : Settings :=
  ⟨strategyNames a c.strategy, assembleOptions a c, containerOptions a c.output sel, d⟩

theorem resolve_eq_ok_iff_exists :
    resolve a c = .ok s ↔
      ∃ sel d, selectionOf a c.selection = .ok sel ∧
        Destination.ofPaths (a.effective .outfile c.output.outfile)
          (a.effective .outfolder c.output.outfolder) = .ok d ∧
        ¬ (d.file?.isSome = true ∧ sel.isGrouped = true) ∧ s = settled a c sel d := by
  have hend : ∀ (sel : Selection) (d : Destination),
      (if (d.isFile && sel.isGrouped) = true then Except.error SettingsError.groupsToFile
        else .ok (settled a c sel d)) = .ok s ↔
      ¬ (d.file?.isSome = true ∧ sel.isGrouped = true) ∧ s = settled a c sel d := by
    intro sel d
    rw [Destination.isFile_eq, ← Bool.and_eq_true]
    by_cases hboth : (d.file?.isSome && sel.isGrouped) = true
    · simp [hboth]
    · simp [hboth, eq_comm]
  unfold resolve
  simp only [outputPaths_eq, bind_eq_ok_iff]
  constructor
  · rintro ⟨sel, hsel, d, hd, hrest⟩
    exact ⟨sel, d, hsel, hd, (hend sel d).mp hrest⟩
  · rintro ⟨sel, d, hsel, hd, hrest⟩
    exact ⟨sel, hsel, d, hd, (hend sel d).mpr hrest⟩

/-- **The settings of a run** are those that command line and configuration file make together. -/
theorem resolve_eq_ok_iff (h : a.SelectsOnce) : resolve a c = .ok s ↔ Merged a c s := by
  rw [resolve_eq_ok_iff_exists]
  constructor
  · rintro ⟨sel, d, hsel, hd, hfile, rfl⟩
    obtain ⟨hdfile, hdfolder⟩ := Destination.ofPaths_eq_ok_iff.mp hd
    exact
      { parser := chosen_iff.mpr rfl
        renderer := chosen_iff.mpr rfl
        styler := chosen_iff.mpr rfl
        language := chosen_iff.mpr rfl
        inherited := switch_iff.mpr rfl
        skipDocstring := switch_iff.mpr rfl
        omitVersion := switch_iff.mpr rfl
        selection := (selectionOf_eq_ok_iff h).mp hsel
        outfile := hdfile
        outfolder := hdfolder
        ungrouped := hfile }
  · intro hs
    refine ⟨s.container.selection, s.destination, (selectionOf_eq_ok_iff h).mpr hs.selection,
      Destination.ofPaths_eq_ok_iff.mpr ⟨hs.outfile, hs.outfolder⟩, hs.ungrouped, ?_⟩
    have hparser := chosen_iff.mp hs.parser
    have hrenderer := chosen_iff.mp hs.renderer
    have hstyler := chosen_iff.mp hs.styler
    have hlanguage := chosen_iff.mp hs.language
    have hinherited := switch_iff.mp hs.inherited
    have hskip := switch_iff.mp hs.skipDocstring
    have homit := switch_iff.mp hs.omitVersion
    obtain ⟨⟨parser, renderer, styler⟩, ⟨language, inherited⟩, ⟨sel, skip, bare⟩, d⟩ := s
    subst hparser hrenderer hstyler hlanguage hinherited hskip homit
    rfl

/-- There are settings if and only if there is a selection that counts, no two destinations count,
and groups are not asked for together with a file. -/
theorem exists_resolve_iff (h : a.SelectsOnce) :
    (∃ s, resolve a c = .ok s) ↔
      (∃ sel, a.Asks c.selection sel) ∧
        ¬ ((a.effective .outfile c.output.outfile).isSome = true ∧
          (a.effective .outfolder c.output.outfolder).isSome = true) ∧
        ¬ ((a.effective .outfile c.output.outfile).isSome = true ∧
          a.asksForGroups c.selection = true) := by
  constructor
  · rintro ⟨s, hs⟩
    have hmerged := (resolve_eq_ok_iff h).mp hs
    have hgroups := isGrouped_of_asks h hmerged.selection
    refine ⟨⟨_, hmerged.selection⟩, ?_, ?_⟩
    · apply Destination.exists_ofPaths_iff.mp
      exact ⟨s.destination, Destination.ofPaths_eq_ok_iff.mpr ⟨hmerged.outfile, hmerged.outfolder⟩⟩
    · rw [← hmerged.outfile, ← hgroups]
      exact hmerged.ungrouped
  · rintro ⟨⟨sel, hsel⟩, htwo, hgroups⟩
    obtain ⟨d, hd⟩ := Destination.exists_ofPaths_iff.mpr htwo
    rw [← isGrouped_of_asks h hsel, ← (Destination.ofPaths_eq_ok_iff.mp hd).1] at hgroups
    have hselection := (selectionOf_eq_ok_iff h).mpr hsel
    exact ⟨_, resolve_eq_ok_iff_exists.mpr ⟨sel, d, hselection, hd, hgroups, rfl⟩⟩

/-! ## What does not count -/

/-- What is configured as selection does not count if the command line selects. -/
theorem resolve_of_selects (h : a.selects = true) (c : Config) (other : SelectionConfig) :
    resolve a { c with selection := other } = resolve a c := by
  have hsame : selectionOf a other = selectionOf a c.selection := by
    unfold selectionOf
    cases hchosen : a.selection? with
    | none =>
      rw [CommandLine.Arguments.selection?_eq_none_iff, h] at hchosen
      cases hchosen
    | some chosen => rfl
  unfold resolve
  dsimp only
  rw [hsame]
  rfl

/-- What is configured as destination does not count if the command line gives one. -/
theorem resolve_of_directs (h : a.directs = true) (c : Config) (file folder : Option Text) :
    resolve a { c with output := { c.output with outfile := file, outfolder := folder } } =
      resolve a c := by
  have hsame : outputPaths a { c.output with outfile := file, outfolder := folder } =
      outputPaths a c.output := by
    simp [outputPaths_eq, CommandLine.Arguments.effective, h]
  unfold resolve
  dsimp only
  rw [hsame]
  rfl

end Settings

end ApiDocs
