import ApiDocs.Package.Container
import ApiDocs.Run.Script
import ApiDocs.Settings.Help
import ApiDocs.Settings.Schema

/-!
# Running a command line

A command line is run in two parts: what it asks for, together with the files that it reads, gives
a script, and the script is then performed. Reading comes before all writing, so a run that fails
for any other reason than a block that cannot be written leaves the files as they were.

* `Sources`: the files that a run reads.
* `CommandLine.Arguments.script`: the script of a run.
* `Command.run`: what a command line does to a file system, and how it ends.
-/

namespace ApiDocs

open CommandLine (Arguments)

/-! ## What is read -/

/-- What is found at a path. -/
inductive Found where
  | nothing
  /-- Something that is not a text. -/
  | unreadable
  | text (content : Text)
  deriving DecidableEq

/-- The files that a run reads. -/
structure Sources where
  /-- The file that a sample configuration would replace. -/
  sample : Found
  config : Found
  manifest : Found
  deriving DecidableEq

/-- What a file system has at a path. -/
def FileSystem.find (fs : FileSystem) (path : Text) : Found :=
  match fs.read? path with
  | some content => .text content
  | none => if fs.pathExists path then .unreadable else .nothing

namespace CommandLine.Arguments

/-- The path of the configuration file. -/
def configPath (a : Arguments) : Text := (a.value? .config).getD Config.defaultPath

/-- The files that a run reads from a file system. -/
def sources (a : Arguments) (fs : FileSystem) : Sources where
  sample := fs.find Config.defaultPath
  config := fs.find a.configPath
  manifest := fs.find (a.manifest.getD [])

/-- The configuration of a run. Only the file that has not been asked for may be missing. -/
def config (a : Arguments) : Found → Except RunError Config
  | .text content =>
    match Config.read? content with
    | some c => .ok c
    | none => .error (.configurationInvalid a.configPath)
  | .unreadable => .error (.configurationUnreadable a.configPath)
  | .nothing =>
    if (a.value? .config).isSome then .error (.configurationUnreadable a.configPath) else .ok {}

end CommandLine.Arguments

/-- The container of a manifest. -/
def Found.container? : Found → Option Container
  | text content => Container.read? content
  | nothing | unreadable => none

/-! ## What is told -/

/-- How much a run tells. -/
structure Verbosity where
  verbose : Bool := false
  quiet : Bool := false
  deriving DecidableEq

namespace Verbosity

/-- What is told of a container before it is documented. -/
def startNotes (v : Verbosity) (c : Container) (s : Strategies) : List Text :=
  if v.verbose then
    ["Documenting ".toList ++ c.name ++ " (".toList ++ Text.ofNat c.members.length ++
      " members) with parser=".toList ++ s.parser.name ++ ", renderer=".toList ++
      s.renderer.name ++ ", styler=".toList ++ s.styler.name]
  else []

/-- What is told of names that were asked for in vain. -/
def missingNotes (v : Verbosity) (missing : List Text) : List Text :=
  if missing.isEmpty || v.quiet then []
  else
    ["Warning: ".toList ++ Text.ofNat missing.length ++ " target(s) missing: ".toList ++
      Text.commaList missing]

/-- What is told of groups before they are written. -/
def groupNotes (v : Verbosity) : Docs → List Text
  | .grouped blocks =>
    if v.verbose then ["Writing ".toList ++ Text.ofNat blocks.length ++ " group(s)".toList] else []
  | .single _ => []

/-- What is told of groups that were not written. -/
def skippedNotes (v : Verbosity) (skipped : List Text) : List Text :=
  if skipped.isEmpty || v.quiet then []
  else
    ["Warning: skipped writing ".toList ++ Text.ofNat skipped.length ++
      " group(s) on account of illegal output file name: ".toList ++ Text.commaList skipped]

/-- The lines that are printed, unless the run is quiet. -/
def lines (v : Verbosity) (texts : List Text) : List Action :=
  if v.quiet then [] else texts.map fun t => .print (t ++ "\n".toList)

end Verbosity

/-! ## What is done -/

namespace Deliveries

/-- The run that makes the deliveries, and tells which files it wrote. -/
def script (d : Deliveries) (v : Verbosity) : Script where
  actions :=
    d.steps.map (Action.deliver · .notWritten) ++ (v.skippedNotes d.skipped).map Action.note ++
      v.lines (d.steps.filterMap Delivery.path?)

end Deliveries

namespace Settings

/-- The run that writes a report on a container of the given name. -/
def writeScript (s : Settings) (v : Verbosity) (name : Text) (r : Report) : Script :=
  Script.noting (v.missingNotes r.missing) <|
    match s.sink r.docs with
    | .error e => .fail (.outputFile e)
    | .ok sink =>
      Script.noting (v.groupNotes r.docs) <|
        match r.docs.deliveries sink name with
        | .error e => .fail (.outputName e)
        | .ok deliveries => deliveries.script v

/-- The run that documents the container of a manifest. -/
def script (s : Settings) (v : Verbosity) (path : Text) (manifest : Found) : Script :=
  match Strategies.resolve s.strategies with
  | .error e => .fail (.strategy e)
  | .ok strategies =>
    match manifest.container? with
    | none => .fail (.manifest path)
    | some c =>
      Script.noting (v.startNotes c strategies) <|
        match c.document ⟨strategies, s.assemble⟩ s.container with
        | .error e => .fail (.duplicates e)
        | .ok report => s.writeScript v c.name report

end Settings

/-- The run that writes a sample configuration, unless there is something in its place. -/
def sampleScript (v : Verbosity) : Found → Script
  | .nothing =>
    { actions :=
        .deliver (.write [] Config.defaultPath Config.sample.toToml) .configurationNotWritten ::
          v.lines [Config.defaultPath] }
  | .unreadable | .text _ => .fail .configurationExists

namespace CommandLine.Arguments

/-- How much a run tells. -/
def verbosity (a : Arguments) : Verbosity := ⟨a.has .verbose, a.has .quiet⟩

/-- The run that documents a container. -/
def documentScript (a : Arguments) (found : Sources) : Script :=
  match a.config found.config with
  | .error e => .fail e
  | .ok c =>
    match Settings.resolve a c with
    | .error e => .fail (.settings e)
    | .ok settings =>
      match a.manifest with
      | none => .fail .noManifest
      | some path => settings.script a.verbosity path found.manifest

/-- What a run does. -/
def script (a : Arguments) (found : Sources) : Script :=
  if a.has .printSchema then { actions := [.print (Schema.text ++ "\n".toList)] }
  else if a.has .initConfig then sampleScript a.verbosity found.sample
  else a.documentScript found

end CommandLine.Arguments

/-! ## Command lines -/

/-- How a command line ends. -/
inductive Ending where
  | success
  | failed (e : RunError)
  /-- The command line is not understood. -/
  | refused
  deriving DecidableEq

/-- The exit status of an ending. -/
def Ending.status : Ending → UInt8
  | success => 0
  | failed _ => 1
  | refused => 2

/-- The ending of a run that has or has not failed. -/
def Ending.ofFailure? : Option RunError → Ending
  | none => success
  | some e => failed e

namespace Command

def versionText : Text := "lucidoc 0.1.0\n".toList

/-- What a command line does to a file system, and how it ends. -/
def run (fs : FileSystem) (words : List Text) : RunState × Ending :=
  match CommandLine.parse words with
  | .refused => (⟨fs, [], []⟩, .refused)
  | .showHelp => (⟨fs, CommandLine.helpText, []⟩, .success)
  | .showVersion => (⟨fs, versionText, []⟩, .success)
  | .run a =>
    let (s, failure) := RunState.perform ⟨fs, [], []⟩ (a.script (a.sources fs))
    (s, .ofFailure? failure)

end Command

end ApiDocs
