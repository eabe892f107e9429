import ApiDocs.Run.Command

/-!
# Runs that fail

All that can go wrong with a run that documents a container, a block that cannot be written apart,
is found out before its first block is written. Until then a run tells notes and nothing else. So
a run that fails for any such reason leaves all files and directories as they were, and has printed
nothing.

* `Script.Careful`: scripts that fail before they do anything, or only because of a block.
* `CommandLine.Arguments.careful_documentScript`: every run that documents a container is so.
* `RunState.perform_of_careful`: what becomes of a careful script that fails.
* `Command.unchanged_of_run_failed`: a run that fails changes nothing.
-/

namespace ApiDocs

/-! ## Careful scripts -/

/-- A script that tells notes and then fails, or one that does not fail unless a block cannot be
written. -/
inductive Script.Careful : Script → Prop
  | refuses (lines : List Text) (e : RunError) : Careful ⟨lines.map Action.note, some e⟩
  | writes (actions : List Action)
      (h : ∀ d failure, Action.deliver d failure ∈ actions → failure = .notWritten) :
      Careful ⟨actions, none⟩

namespace Script

theorem careful_fail (e : RunError) : (fail e).Careful := .refuses [] e

theorem Careful.noting {s : Script} (h : s.Careful) (lines : List Text) :
    (s.noting lines).Careful := by
  cases h with
  | refuses told e =>
    have happend : lines.map Action.note ++ told.map Action.note =
        (lines ++ told).map Action.note := List.map_append.symm
    rw [Script.noting, happend]
    exact .refuses (lines ++ told) e
  | writes actions hwrites =>
    refine .writes _ fun d failure hmem => ?_
    rcases List.mem_append.mp hmem with hmem | hmem
    · obtain ⟨line, -, hline⟩ := List.mem_map.mp hmem
      cases hline
    · exact hwrites d failure hmem

end Script

/-! ## The script of a run -/

-- One lemma for each stage of a run, from the last one to the first.

theorem Deliveries.careful_script (d : Deliveries) (v : Verbosity) : (d.script v).Careful := by
  refine .writes _ fun delivery failure hmem => ?_
  rcases List.mem_append.mp hmem with hmem | hmem
  · rcases List.mem_append.mp hmem with hmem | hmem
    · obtain ⟨step, -, hstep⟩ := List.mem_map.mp hmem
      cases hstep
      rfl
    · obtain ⟨line, -, hline⟩ := List.mem_map.mp hmem
      cases hline
  · unfold Verbosity.lines at hmem
    split at hmem
    · cases hmem
    · obtain ⟨text, -, htext⟩ := List.mem_map.mp hmem
      cases htext

theorem Settings.careful_writeScript (s : Settings) (v : Verbosity) (name : Text) (r : Report) :
    (s.writeScript v name r).Careful := by
  refine Script.Careful.noting ?_ _
  cases s.sink r.docs with
  | error e => exact Script.careful_fail _
  | ok sink =>
    refine Script.Careful.noting ?_ _
    cases r.docs.deliveries sink name with
    | error e => exact Script.careful_fail _
    | ok deliveries => exact deliveries.careful_script v

theorem Settings.careful_script (s : Settings) (v : Verbosity) (path : Text) (manifest : Found) :
    (s.script v path manifest).Careful := by
  unfold Settings.script
  cases Strategies.resolve s.strategies with
  | error e => exact Script.careful_fail _
  | ok strategies =>
    cases manifest.container? with
    | none => exact Script.careful_fail _
    | some c =>
      refine Script.Careful.noting ?_ _
      cases c.document ⟨strategies, s.assemble⟩ s.container with
      | error e => exact Script.careful_fail _
      | ok report => exact s.careful_writeScript v c.name report

/-- **Every run that documents a container is careful**, whatever files it reads. -/
theorem CommandLine.Arguments.careful_documentScript (a : CommandLine.Arguments) (found : Sources) :
    (a.documentScript found).Careful := by
  unfold documentScript
  cases a.config found.config with
  | error e => exact Script.careful_fail _
  | ok c =>
    dsimp only
    cases Settings.resolve a c with
    | error e => exact Script.careful_fail _
    | ok settings =>
      cases a.manifest with
      | none => exact Script.careful_fail _
      | some path => exact settings.careful_script a.verbosity path found.manifest

/-! ## What becomes of a script -/

namespace RunState

/-- Notes change no file and print nothing to standard output. -/
theorem actAll_notes (s : RunState) (lines : List Text) :
    ∃ told, s.actAll (lines.map Action.note) = ({ s with standardError := told }, none) := by
  induction lines generalizing s with
  | nil => exact ⟨s.standardError, rfl⟩
  | cons line rest ih =>
    obtain ⟨told, htold⟩ :=
      ih { s with standardError := s.standardError ++ line ++ "\n".toList }
    exact ⟨told, htold⟩

/-- A step fails only if it delivers a block, and then as the step says. -/
theorem act_failure {s s' : RunState} {action : Action} {e : RunError}
    (h : s.act action = (s', some e)) : ∃ d, action = .deliver d e := by
  cases action with
  | print text => cases h
  | note line => cases h
  | deliver d failure =>
    have hfailure : (if (s.files.perform d).2 = true then none else some failure) = some e :=
      congrArg Prod.snd h
    by_cases hdone : (s.files.perform d).2 = true
    · rw [if_pos hdone] at hfailure
      cases hfailure
    · rw [if_neg hdone] at hfailure
      cases hfailure
      exact ⟨d, rfl⟩

theorem actAll_failure {s s' : RunState} {actions : List Action} {e : RunError}
    (h : s.actAll actions = (s', some e)) : ∃ d, Action.deliver d e ∈ actions := by
  induction actions generalizing s with
  | nil => cases h
  | cons action rest ih =>
    rw [actAll] at h
    split at h
    · obtain ⟨d, hd⟩ := ih h
      exact ⟨d, List.mem_cons_of_mem _ hd⟩
    · rename_i hact
      cases h
      obtain ⟨d, rfl⟩ := act_failure hact
      exact ⟨d, List.mem_cons_self⟩

/-- A careful script that fails for another reason than a block leaves everything as it was. -/
theorem perform_of_careful {s s' : RunState} {script : Script} {e : RunError}
    (hscript : script.Careful) (h : s.perform script = (s', some e)) (he : e ≠ .notWritten) :
    s'.files = s.files ∧ s'.standardOutput = s.standardOutput := by
  cases hscript with
  | refuses lines failure =>
    obtain ⟨told, htold⟩ := s.actAll_notes lines
    rw [perform, htold] at h
    cases h
    exact ⟨rfl, rfl⟩
  | writes actions hwrites =>
    -- Such a script fails at a block only.
    exfalso
    rw [perform] at h
    split at h
    · cases h
    · rename_i hact
      cases h
      obtain ⟨d, hd⟩ := actAll_failure hact
      exact he (hwrites d e hd)

end RunState

/-! ## Command lines -/

namespace Command

/-- **A run that fails changes nothing.** Let a command line be accepted that asks for
documentation. If the run fails for any other reason than a block that cannot be written, all files
and directories are as they were, and nothing has been printed to standard output. -/
theorem unchanged_of_run_failed {fs : FileSystem} {words : List Text}
    {a : CommandLine.Arguments} {s : RunState} {e : RunError}
    (haccepted : CommandLine.parse words = .run a) (hsample : a.has .initConfig = false)
    (hschema : a.has .printSchema = false) (hfailed : run fs words = (s, .failed e))
    (he : e ≠ .notWritten) : s.files = fs ∧ s.standardOutput = [] := by
  have hscript : a.script (a.sources fs) = a.documentScript (a.sources fs) := by
    simp [CommandLine.Arguments.script, hsample, hschema]
  rw [run, haccepted] at hfailed
  simp only [hscript] at hfailed
  obtain ⟨hstate, hending⟩ := Prod.mk.inj hfailed
  have hperform : RunState.perform ⟨fs, [], []⟩ (a.documentScript (a.sources fs)) =
      (s, some e) := by
    refine Prod.ext hstate ?_
    cases hfailure : (RunState.perform ⟨fs, [], []⟩ (a.documentScript (a.sources fs))).2 with
    | none => simp [hfailure, Ending.ofFailure?] at hending
    | some failure => simpa [hfailure, Ending.ofFailure?] using hending
  exact RunState.perform_of_careful (a.careful_documentScript _) hperform he

/-- A container whose name is no name of a file is refused after its documentation has been put
together, and the folder for it is not made. -/
theorem unchanged_of_run_failed_outputName :
    let manifest : Place := ⟨false, 0, ["m.json".toList]⟩
    let fs : FileSystem := ⟨[(manifest, "\x7b\"name\": \"a/b\"\x7d".toList)], []⟩
    let words := ["m.json".toList, "--outfolder".toList, "docs".toList]
    ∃ (a : CommandLine.Arguments) (s : RunState),
      CommandLine.parse words = .run a ∧ a.has .initConfig = false ∧ a.has .printSchema = false ∧
        run fs words = (s, .failed (.outputName (.invalidName "a/b".toList))) ∧
          s.files = fs ∧ s.standardOutput = [] := by
  intro manifest fs words
  have hrun : run fs words =
      (⟨fs, [], []⟩, .failed (.outputName (.invalidName "a/b".toList))) := by
    decide +kernel
  have haccepted : ∃ a, CommandLine.parse words = .run a ∧ a.has .initConfig = false ∧
      a.has .printSchema = false := ⟨_, rfl, rfl, rfl⟩
  obtain ⟨a, hparse, hsample, hschema⟩ := haccepted
  exact ⟨a, _, hparse, hsample, hschema, hrun,
    unchanged_of_run_failed hparse hsample hschema hrun (by decide)⟩

end Command

end ApiDocs
