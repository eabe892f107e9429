import ApiDocs.Json.Record
import ApiDocs.Output.Path
import ApiDocs.Package.Selection
import ApiDocs.Toml.Printer
import ApiDocs.Toml.Reader

/-!
# Configuration files

A configuration file sets, in three tables, the strategies, the selection and the output. Every
setting may be left out; what the file says beyond them is ignored.

A table may also be written as an array that gives the settings by position; what follows the last
of them is not even looked at.

* `Config.read?`: the settings of a file.
* `Config.toToml`: the settings as a file.
* `Config.sample`: the settings of a sample file.
-/

namespace ApiDocs

open Json

/-- The strategies that a file sets. -/
structure StrategyConfig where
  parser : Option Text := none
  renderer : Option Text := none
  styler : Option Text := none
  language : Option Text := none
  deriving DecidableEq

/-- A group that a file sets. -/
structure GroupConfig where
  name : Text
  members : NameList
  deriving DecidableEq

/-- The selection that a file sets. -/
structure SelectionConfig where
  whitelist : Option NameList := none
  blacklist : Option NameList := none
  groups : Option (List GroupConfig) := none
  deriving DecidableEq

/-- The output that a file sets. -/
structure OutputConfig where
  skipDocstring : Option Bool := none
  includeInherited : Option Bool := none
  omitVersion : Option Bool := none
  outfile : Option Text := none
  outfolder : Option Text := none
  deriving DecidableEq

/-- The settings of a file. -/
structure Config where
  strategy : StrategyConfig := {}
  selection : SelectionConfig := {}
  output : OutputConfig := {}
  deriving DecidableEq

/-- The groups with their names, as a selection takes them. -/
def SelectionConfig.groupPairs (c : SelectionConfig) : Option (List (Text × NameList)) :=
  c.groups.map fun gs => gs.map fun g => (g.name, g.members)

/-! ## Reading -/

/-- The settings of a table with the given names. Other settings have to be readable if they have
names. -/
def Json.settings? (names : List Text) : Json → Option (Record Json)
  | .array xs => Record.ofShape? names (.positional (xs.take names.length))
  | .object fields =>
    if fields.all fun (key, j) => names.contains key || j.isReadable then
      Record.ofShape? names (.named fields)
    else none
  | _ => none

/-- A setting that may be left out. -/
def Json.Record.setting? {α : Type} (r : Record Json) (name : Text) (read? : Json → Option α) :
    Option (Option α) :=
  r.defaulted? name none fun j => (read? j).map some

namespace StrategyConfig

def ofJson? (j : Json) : Option StrategyConfig := do
  let r ← settings?
    ["parser".toList, "renderer".toList, "styler".toList, "language".toList] j
  some
    { parser := ← r.setting? "parser".toList string?
      renderer := ← r.setting? "renderer".toList string?
      styler := ← r.setting? "styler".toList string?
      language := ← r.setting? "language".toList string? }

end StrategyConfig

namespace GroupConfig

def ofJson? (j : Json) : Option GroupConfig := do
  let r ← settings? ["name".toList, "members".toList] j
  some
    { name := ← r.required? "name".toList string?
      members := ← r.required? "members".toList NameList.ofJson? }

end GroupConfig

namespace SelectionConfig

def ofJson? (j : Json) : Option SelectionConfig := do
  let r ← settings? ["whitelist".toList, "blacklist".toList, "groups".toList] j
  some
    { whitelist := ← r.setting? "whitelist".toList NameList.ofJson?
      blacklist := ← r.setting? "blacklist".toList NameList.ofJson?
      groups := ← r.setting? "groups".toList (listOf? GroupConfig.ofJson?) }

end SelectionConfig

namespace OutputConfig

def ofJson? (j : Json) : Option OutputConfig := do
  let r ← settings?
    ["skip_container_docstring".toList, "include_inherited".toList,
      "omit_version_metadata".toList, "outfile".toList, "outfolder".toList] j
  some
    { skipDocstring := ← r.setting? "skip_container_docstring".toList bool?
      includeInherited := ← r.setting? "include_inherited".toList bool?
      omitVersion := ← r.setting? "omit_version_metadata".toList bool?
      outfile := ← r.setting? "outfile".toList string?
      outfolder := ← r.setting? "outfolder".toList string? }

end OutputConfig

namespace Config

def ofJson? (j : Json) : Option Config := do
  let r ← settings? ["strategy".toList, "selection".toList, "output".toList] j
  some
    { strategy := ← r.defaulted? "strategy".toList {} StrategyConfig.ofJson?
      selection := ← r.defaulted? "selection".toList {} SelectionConfig.ofJson?
      output := ← r.defaulted? "output".toList {} OutputConfig.ofJson? }

def read? (document : Text) : Option Config := (Toml.read? document).bind ofJson?

end Config

/-! ## Settings in JSON -/

def StrategyConfig.fields (c : StrategyConfig) : List (Text × Json) :=
  optionalField "parser".toList .string c.parser ++
    optionalField "renderer".toList .string c.renderer ++
    optionalField "styler".toList .string c.styler ++
    optionalField "language".toList .string c.language

def GroupConfig.toJson (g : GroupConfig) : Json :=
  .object [("name".toList, .string g.name), ("members".toList, g.members.toJson)]

def SelectionConfig.fields (c : SelectionConfig) : List (Text × Json) :=
  optionalField "whitelist".toList NameList.toJson c.whitelist ++
    optionalField "blacklist".toList NameList.toJson c.blacklist ++
    optionalField "groups".toList (fun gs => .array (gs.map GroupConfig.toJson)) c.groups

def OutputConfig.fields (c : OutputConfig) : List (Text × Json) :=
  optionalField "skip_container_docstring".toList .bool c.skipDocstring ++
    optionalField "include_inherited".toList .bool c.includeInherited ++
    optionalField "omit_version_metadata".toList .bool c.omitVersion ++
    optionalField "outfile".toList .string c.outfile ++
    optionalField "outfolder".toList .string c.outfolder

namespace Config

/-- A table that is written only when something is set in it. -/
def tableField (name : Text) : List (Text × Json) → List (Text × Json)
  | [] => []
  | fields => [(name, .object fields)]

def toJson (c : Config) : Json :=
  .object (tableField "strategy".toList c.strategy.fields ++
    tableField "selection".toList c.selection.fields ++ tableField "output".toList c.output.fields)

end Config

/-! ## Settings in TOML -/

open Toml.Printer

namespace Config

/-- A name list in TOML. -/
def nameListText : NameList → Text
  | .one name => string name
  | .many names => stringArray names

/-- A table with its header, unless there is nothing in it. -/
def tableText (name lines : Text) : Text :=
  if lines.isEmpty then [] else "[".toList ++ name ++ "]\n".toList ++ lines

def strategyText (c : StrategyConfig) : Text :=
  tableText "strategy".toList
    (optionalLine "parser".toList string c.parser ++
      optionalLine "renderer".toList string c.renderer ++
      optionalLine "styler".toList string c.styler ++
      optionalLine "language".toList string c.language)

def groupText (g : GroupConfig) : Text :=
  "[[selection.groups]]\n".toList ++ line "name".toList (string g.name) ++
    line "members".toList (nameListText g.members)

/-- The tables of a selection: the lists of names, and one table for each group. -/
def selectionTexts (c : SelectionConfig) : List Text :=
  let noGroups := if c.groups == some [] then line "groups".toList "[]".toList else []
  tableText "selection".toList
      (optionalLine "whitelist".toList nameListText c.whitelist ++
        optionalLine "blacklist".toList nameListText c.blacklist ++ noGroups) ::
    (c.groups.getD []).map groupText

def outputText (c : OutputConfig) : Text :=
  tableText "output".toList
    (optionalLine "skip_container_docstring".toList bool c.skipDocstring ++
      optionalLine "include_inherited".toList bool c.includeInherited ++
      optionalLine "omit_version_metadata".toList bool c.omitVersion ++
      optionalLine "outfile".toList string c.outfile ++
      optionalLine "outfolder".toList string c.outfolder)

/-- The comment that tells an editor the schema of the file. -/
def schemaLine : Text :=
  ("#:schema https://raw.githubusercontent.com/databio/lucidoc/main/crates/lucidoc-cli/" ++
    "schema/lucidoc.schema.json\n\n").toList

def toToml (c : Config) : Text :=
  schemaLine ++
    tables (strategyText c.strategy :: selectionTexts c.selection ++ [outputText c.output])

def sample : Config where
  strategy :=
    { parser := some "rst".toList, renderer := some "markdown".toList,
      styler := some "pycode".toList, language := some "python".toList }
  output :=
    { skipDocstring := some false, includeInherited := some false, omitVersion := some false,
      outfile := some "docs/api.md".toList }

def fileName : Text := "_lucidoc.toml".toList

/-- The path of the configuration file in the working directory. -/
def defaultPath : Text := Path.join ".".toList fileName

end Config

end ApiDocs
