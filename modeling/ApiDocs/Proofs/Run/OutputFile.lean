import ApiDocs.Proofs.Package.SelectionModes
import ApiDocs.Proofs.Settings.Precedence
import ApiDocs.Run.Command

/-!
# Runs that write one file

Where the documentation of a run goes follows from its settings. An output file is written over by
every block that goes to it, so it must not get more than one. The settings see to that: groups
are refused together with a file, and without groups there is a single block.

* `Script.delivered`: the blocks that a run delivers.
* `CommandLine.Arguments.Reaches`: the sink that a run comes to use.
* `CommandLine.Arguments.delivered_of_reaches`: a file gets one block.
* `Settings.Precedence`: what the settings of a run are, when there are any, and what they mean for
  an output file.
* `Settings.precedence_of_selectsOnce`: all that is needed of a command line is that it selects by
  one list at most; `Command.settings_of_parse`: those that are accepted do.
-/

namespace ApiDocs

/-! ## What is delivered -/

def Action.delivery? : Action → Option Delivery
  | deliver d _ => some d
  | print _ | note _ => none

/-- The blocks that a run delivers, in order. -/
def Script.delivered (s : Script) : List Delivery := s.actions.filterMap Action.delivery?

theorem filterMap_delivery?_map_note (lines : List Text) :
    (lines.map Action.note).filterMap Action.delivery? = [] := by
  rw [List.filterMap_map, List.filterMap_eq_nil_iff]
  intro line _
  rfl

/-- Notes deliver nothing. -/
theorem Script.delivered_noting (lines : List Text) (s : Script) :
    (s.noting lines).delivered = s.delivered := by
  simp only [delivered, noting, List.filterMap_append, filterMap_delivery?_map_note,
    List.nil_append]

theorem Deliveries.delivered_script (d : Deliveries) (v : Verbosity) :
    (d.script v).delivered = d.steps := by
  have hsteps : (d.steps.map (Action.deliver · .notWritten)).filterMap Action.delivery? =
      d.steps := by
    rw [List.filterMap_map]
    exact List.filterMap_some
  have hlines : ∀ texts, (v.lines texts).filterMap Action.delivery? = [] := by
    intro texts
    unfold Verbosity.lines
    split
    · rfl
    · rw [List.filterMap_map, List.filterMap_eq_nil_iff]
      intro text _
      rfl
  simp only [Script.delivered, script, List.filterMap_append, hsteps,
    filterMap_delivery?_map_note, hlines, List.append_nil]

/-! ## One block -/

/-- Without groups there is a single block. -/
theorem Container.docs_eq_single (c : Container) (a : Assembler) {o : ContainerOptions}
    (h : o.selection.isGrouped = false) : ∃ block, c.docs a o = .single block := by
  unfold docs
  cases hs : o.selection with
  | all => exact ⟨_, rfl⟩
  | whitelist names => exact ⟨_, rfl⟩
  | blacklist names => exact ⟨_, rfl⟩
  | groups gs =>
    rw [hs] at h
    cases h

/-- Only the destination makes a file the sink. -/
theorem Settings.file?_of_sink {s : Settings} {docs : Docs} {path : Text}
    (h : s.sink docs = .ok (.file path)) : s.destination.file?.isSome = true := by
  unfold sink at h
  split at h
  · rename_i hdestination
    rw [hdestination]
    rfl
  · cases h
  · cases h
  · cases h

namespace CommandLine.Arguments

variable {a : Arguments} {found : Sources} {path : Text} {docs : Docs}

/-- A run gets as far as to write documentation to a sink: all that it reads is as it should be,
its settings make sense, the members are told apart, and the sink can be used. -/
inductive Reaches (a : Arguments) (found : Sources) : Sink → Docs → Prop
  | intro {c : Config} {s : Settings} {manifest : Text} {strategies : Strategies}
    {container : Container} {report : Report} {sink : Sink}
    (documents : a.has .printSchema = false ∧ a.has .initConfig = false)
    (configured : a.config found.config = .ok c)
    (settled : Settings.resolve a c = .ok s)
    (asked : a.manifest = some manifest)
    (known : Strategies.resolve s.strategies = .ok strategies)
    (readable : found.manifest.container? = some container)
    (documented : container.document ⟨strategies, s.assemble⟩ s.container = .ok report)
    (directed : s.sink report.docs = .ok sink) : Reaches a found sink report.docs

/-- **A file gets one block in a run.** -/
theorem delivered_of_reaches (h : a.Reaches found (.file path) docs) :
    ∃ block, docs = .single block ∧
      (a.script found).delivered = [.write ((Path.parent? path).getD []) path block] := by
  cases h with
  | @intro c s manifest strategies container report sink documents configured settled asked known
      readable documented directed =>
    have hfile : s.destination.file?.isSome = true := Settings.file?_of_sink directed
    have hungrouped : s.container.selection.isGrouped = false := by
      obtain ⟨sel, d, -, -, hnot, rfl⟩ := Settings.resolve_eq_ok_iff_exists.mp settled
      exact Bool.eq_false_iff.mpr fun hgrouped => hnot ⟨hfile, hgrouped⟩
    obtain ⟨block, hblock⟩ : ∃ block, report.docs = .single block := by
      obtain ⟨-, rfl⟩ := Container.document_eq_ok_iff.mp documented
      exact container.docs_eq_single _ hungrouped
    have hscript : a.script found =
        Script.noting (a.verbosity.startNotes container strategies)
          (s.writeScript a.verbosity container.name report) := by
      simp only [script, documents.1, documents.2, documentScript, configured, settled, asked,
        Settings.script, known, readable, documented, Bool.false_eq_true, if_false]
    have hdeliveries : report.docs.deliveries (.file path) container.name =
        .ok ⟨[.write ((Path.parent? path).getD []) path block], []⟩ := by
      rw [hblock]
      rfl
    refine ⟨block, hblock, ?_⟩
    rw [hscript, Script.delivered_noting, Settings.writeScript, Script.delivered_noting, directed]
    simp only [Script.delivered_noting, hdeliveries, Deliveries.delivered_script]

end CommandLine.Arguments

/-! ## Settings and output files -/

namespace Settings

open CommandLine (Arguments)

/-- What wins where a command line and a configuration file differ, and what follows for a file
that is written. -/
structure Precedence (a : Arguments) (c : Config) : Prop where
  /-- The configured selection does not count if the command line selects. -/
  selection : a.selects = true → ∀ other, resolve a { c with selection := other } = resolve a c
  /-- The configured file and folder do not count if the command line gives either. -/
  destination : a.directs = true → ∀ file folder,
    resolve a { c with output := { c.output with outfile := file, outfolder := folder } } =
      resolve a c
  /-- The settings are those that the two make together. -/
  merged : ∀ s, resolve a c = .ok s ↔ Merged a c s
  /-- There are settings if and only if the selection that counts is a valid one, a file and a
  folder do not both count, and a file does not count together with groups. -/
  resolved : (∃ s, resolve a c = .ok s) ↔
    (∃ sel, a.Asks c.selection sel) ∧
      ¬ ((a.effective .outfile c.output.outfile).isSome = true ∧
        (a.effective .outfolder c.output.outfolder).isSome = true) ∧
      ¬ ((a.effective .outfile c.output.outfile).isSome = true ∧
        a.asksForGroups c.selection = true)
  /-- A run that comes to write to a file delivers exactly one block, and that to this file. -/
  delivered : ∀ found path docs, a.Reaches found (.file path) docs →
    ∃ block, docs = .single block ∧
      (a.script found).delivered = [.write ((Path.parent? path).getD []) path block]

/-- How a command line has come about is of no matter, as long as it selects by one list at
most. -/
theorem precedence_of_selectsOnce {a : Arguments} (h : a.SelectsOnce) (c : Config) :
    Precedence a c where
  selection hselects other := resolve_of_selects hselects c other
  destination hdirects file folder := resolve_of_directs hdirects c file folder
  merged _ := resolve_eq_ok_iff h
  resolved := exists_resolve_iff h
  delivered _ _ _ hreaches := CommandLine.Arguments.delivered_of_reaches hreaches

end Settings

/-! ## Accepted command lines -/

namespace Command

open CommandLine (Arguments)

/-- **What wins where command line and configuration file differ**, for every command line that is
accepted and every configuration. -/
theorem settings_of_parse {words : List Text} {a : Arguments}
    (haccepted : CommandLine.parse words = .run a) (c : Config) : Settings.Precedence a c :=
  Settings.precedence_of_selectsOnce (CommandLine.selectsOnce_of_parse haccepted) c

/-- A configuration that makes no sense, with a name for a list of names and with two destinations,
does no harm to a command line that selects and gives a file. -/
theorem settings_of_parse_outfile :
    let words := ["m.json".toList, "--whitelist".toList, "load".toList, "--outfile".toList,
      "out/api".toList, "--styler".toList, "plain".toList]
    let c : Config :=
      { strategy := { styler := some "pycode".toList, language := some "py".toList }
        selection := { whitelist := some (.one "load".toList) }
        output := { outfile := some "a.md".toList, outfolder := some "docs".toList,
                    omitVersion := some true } }
    let s : Settings :=
      { strategies := ⟨"rst".toList, "markdown".toList, "plain".toList⟩
        assemble := ⟨"py".toList, false⟩
        container := ⟨.whitelist ["load".toList], false, true⟩
        destination := .file "out/api".toList }
    let found : Sources :=
      ⟨.nothing, .text c.toToml, .text "\x7b\"name\": \"pkg\"\x7d".toList⟩
    ∃ a, CommandLine.parse words = .run a ∧ a.selects = true ∧ a.directs = true ∧
      Settings.resolve a c = .ok s ∧ Settings.Merged a c s ∧
        Settings.resolve a { c with selection := {} } = .ok s ∧
          ∃ docs block, a.Reaches found (.file "out/api.md".toList) docs ∧ docs = .single block ∧
            (a.script found).delivered =
              [.write "out".toList "out/api.md".toList block] := by
  intro words c s found
  have haccepted : ∃ a, CommandLine.parse words = .run a ∧ a.selects = true ∧ a.directs = true ∧
      Settings.resolve a c = .ok s ∧ a.config found.config = .ok c ∧
        a.has .printSchema = false ∧ a.has .initConfig = false ∧
          a.manifest = some "m.json".toList := by
    refine ⟨_, rfl, ?_⟩
    decide +kernel
  have hknown : Strategies.resolve s.strategies = .ok ⟨.rst, .markdown, .plain⟩ := by
    decide +kernel
  have hdocumented : found.manifest.container?.any (fun container =>
      (container.document ⟨⟨.rst, .markdown, .plain⟩, s.assemble⟩ s.container).toOption.isSome) =
      true := by
    decide +kernel
  obtain ⟨container, hreadable, hsome⟩ := (Option.any_eq_true _ _).mp hdocumented
  obtain ⟨report, hreport⟩ : ∃ report, container.document
      ⟨⟨.rst, .markdown, .plain⟩, s.assemble⟩ s.container = .ok report := by
    cases hdocument : container.document ⟨⟨.rst, .markdown, .plain⟩, s.assemble⟩ s.container with
    | error e =>
      rw [hdocument] at hsome
      cases hsome
    | ok report => exact ⟨report, rfl⟩
  have hsink : ∀ docs, s.sink docs = .ok (.file "out/api.md".toList) := by
    intro docs
    rfl
  obtain ⟨a, hparse, hselects, hdirects, hresolve, hconfig, hschema, hsample, hmanifest⟩ :=
    haccepted
  have hprecedence := settings_of_parse hparse c
  have hreaches := CommandLine.Arguments.Reaches.intro ⟨hschema, hsample⟩ hconfig hresolve
    hmanifest hknown hreadable hreport (hsink _)
  obtain ⟨block, hdocs, hdelivered⟩ := hprecedence.delivered _ _ _ hreaches
  exact ⟨a, hparse, hselects, hdirects, hresolve, (hprecedence.merged s).mp hresolve,
    (hprecedence.selection hselects {}).trans hresolve, _, block, hreaches, hdocs, hdelivered⟩

end Command

end ApiDocs
