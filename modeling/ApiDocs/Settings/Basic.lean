import ApiDocs.Output.Sink
import ApiDocs.Settings.CommandLine
import ApiDocs.Settings.Config

/-!
# Settings of a run

The settings of a run come from the command line and the configuration file. What the command line
says wins: a strategy or the language that it names, the selection that it makes, the destination
that it gives. A switch is on if either of the two turns it on.

* `Settings.resolve`: the settings, or why there are none.
* `Settings.sink`: where documentation goes.
-/

namespace ApiDocs

open CommandLine (Arguments)

/-- Where documentation is to go. -/
inductive Destination where
  /-- Nothing is said. -/
  | unset
  | file (path : Text)
  | folder (path : Text)
  deriving DecidableEq

/-- The settings of a run. -/
structure Settings where
  strategies : StrategyNames := {}
  assemble : AssembleOptions := {}
  container : ContainerOptions := {}
  destination : Destination := .unset
  deriving DecidableEq

/-- Why there are no settings. -/
inductive SettingsError where
  /-- The command line makes no selection. -/
  | selection (e : SelectionError)
  /-- The configuration file makes no selection. -/
  | configuredSelection (e : SelectionError)
  /-- Both a file and a folder are given. -/
  | twoDestinations
  /-- Groups do not go to one file. -/
  | groupsToFile
  deriving DecidableEq

def SettingsError.message : SettingsError → Text
  | selection e => e.message
  | configuredSelection _ => "Invalid selection in ".toList ++ Config.fileName
  | twoDestinations => "Cannot specify both output file and output folder".toList
  | groupsToFile =>
    ("Cannot use output file with groups; to control output destination, " ++
      "use an output folder and name each group after its file").toList

def SettingsError.cause? : SettingsError → Option Text
  | configuredSelection e => some e.message
  | selection _ | twoDestinations | groupsToFile => none

/-! ## Selection -/

/-- The selection that a command line asks for, if it asks for one. -/
def CommandLine.Arguments.selection? (a : Arguments) : Option (Except SelectionError Selection) :=
  match a.values? .whitelist, a.values? .blacklist, a.values? .outputGroups with
  | none, none, none => none
  | whitelist, blacklist, none =>
    some (Selection.ofSpec (whitelist.map .many) (blacklist.map .many) none)
  | whitelist, blacklist, some specs =>
    some do
      let groups ← Selection.groupsOfSpecs specs
      Selection.ofSpec (whitelist.map .many) (blacklist.map .many) (some groups)

/-- The selection that a configuration file asks for. -/
def SelectionConfig.selection (c : SelectionConfig) : Except SelectionError Selection :=
  Selection.ofSpec c.whitelist c.blacklist c.groupPairs

/-! ## Destination -/

/-- The destination of a file or a folder, of which at most one may be given. -/
def Destination.ofPaths : Option Text → Option Text → Except SettingsError Destination
  | none, none => .ok .unset
  | some path, none => .ok (.file path)
  | none, some path => .ok (.folder path)
  | some _, some _ => .error .twoDestinations

def Destination.isFile : Destination → Bool
  | file _ => true
  | unset | folder _ => false

/-- The paths of a file and a folder for output. Those of the command line replace both that the
configuration file gives. -/
def outputPaths (a : Arguments) (c : OutputConfig) : Option Text × Option Text :=
  match a.value? .outfile, a.value? .outfolder with
  | none, none => (c.outfile, c.outfolder)
  | outfile, outfolder => (outfile, outfolder)

/-! ## Settings -/

namespace Settings

def strategyNames (a : Arguments) (c : StrategyConfig) : StrategyNames :=
  let defaults : StrategyNames := {}
  { parser := ((a.value? .parser).or c.parser).getD defaults.parser
    renderer := ((a.value? .renderer).or c.renderer).getD defaults.renderer
    styler := ((a.value? .styler).or c.styler).getD defaults.styler }

/-- The options for the documentation of members. -/
def assembleOptions (a : Arguments) (c : Config) : AssembleOptions :=
  { language := ((a.value? .language).or c.strategy.language).getD defaultLanguage
    includeInherited := a.has .inherited || c.output.includeInherited.getD false }

/-- The options for the documentation of a container. -/
def containerOptions (a : Arguments) (c : OutputConfig) (s : Selection) : ContainerOptions :=
  { selection := s
    skipDocstring := a.has .skipDocstring || c.skipDocstring.getD false
    omitVersion := a.has .omitVersion || c.omitVersion.getD false }

/-- The selection of a run. -/
def selectionOf (a : Arguments) (c : SelectionConfig) : Except SettingsError Selection :=
  match a.selection? with
  | some chosen => chosen.mapError .selection
  | none => c.selection.mapError .configuredSelection

/-- The settings of a run. -/
def resolve (a : Arguments) (c : Config) : Except SettingsError Settings := do
  let selection ← selectionOf a c.selection
  let (outfile, outfolder) := outputPaths a c.output
  let destination ← Destination.ofPaths outfile outfolder
  if destination.isFile && selection.isGrouped then .error .groupsToFile
  else
    .ok
      { strategies := strategyNames a c.strategy
        assemble := assembleOptions a c
        container := containerOptions a c.output selection
        destination := destination }

/-- Where documentation goes. If nothing is said, groups go to the working directory, and one
block is printed. -/
def sink (s : Settings) (docs : Docs) : Except OutputError Sink :=
  match s.destination, docs with
  | .file path, _ => Sink.ofFile path
  | .folder path, _ => .ok (.directory path)
  | .unset, .grouped _ => .ok (.directory ".".toList)
  | .unset, .single _ => .ok .standardOutput

end Settings

end ApiDocs
