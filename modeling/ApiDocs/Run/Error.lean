import ApiDocs.Settings.Basic

/-!
# Failures of a run

* `RunError`: why a run fails.
* `RunError.message`: the failure in words.
* `RunError.cause?`: what lies behind it, where this is a rule of selections or of output names.
* `RunError.printedCause?`: the same as it is printed.
-/

namespace ApiDocs

/-- Why a run fails. -/
inductive RunError where
  /-- A sample configuration would replace a file. -/
  | configurationExists
  /-- The sample configuration cannot be written. -/
  | configurationNotWritten
  /-- The configuration file cannot be read. -/
  | configurationUnreadable (path : Text)
  /-- The configuration file is not what it should be. -/
  | configurationInvalid (path : Text)
  | settings (e : SettingsError)
  /-- There is nothing to document. -/
  | noManifest
  | strategy (e : UnknownStrategy)
  /-- The manifest cannot be read, or is not what it should be. -/
  | manifest (path : Text)
  | duplicates (e : DuplicateMembers)
  /-- The output file cannot have its name. -/
  | outputFile (e : OutputError)
  /-- A block cannot have its name. -/
  | outputName (e : OutputError)
  /-- A block cannot be written. -/
  | notWritten
  deriving DecidableEq

namespace RunError

def message : RunError → Text
  | configurationExists => "Config file already exists: ".toList ++ Config.defaultPath
  | configurationNotWritten => "Failed to write: ".toList ++ Config.defaultPath
  | configurationUnreadable path => "Failed to read config file: ".toList ++ path
  | configurationInvalid path => "Failed to parse config file: ".toList ++ path
  | settings e => e.message
  | noManifest => "A manifest path is required".toList
  | strategy e => e.message
  | manifest path => "Failed to load manifest: ".toList ++ path
  | duplicates e => e.message
  | outputFile e => e.message
  | outputName _ | notWritten => "Failed to write documentation".toList

def cause? : RunError → Option Text
  | settings e => e.cause?
  | outputName e => some e.message
  | _ => none

/-- What stands before each line of a cause. -/
def causeIndent : Text := "    ".toList

/-- What lies behind the failure, with every line after the first indented. -/
def printedCause? (e : RunError) : Option Text :=
  e.cause?.map (Text.replaceChar '\n' ('\n' :: causeIndent))

end RunError

end ApiDocs
