import ApiDocs.Output.FileSystem
import ApiDocs.Package.Report

/-!
# Where documentation goes

Named blocks of documentation go to one file, to a folder with a file for each, to standard
output, or into memory. Where a block goes, and whether its name will do, is decided before
anything is written.

* `Output.finalizePath`: the path of a file, which ends in the one extension that there is.
* `Output.checkName`: a name that may become the name of a file.
* `Sink.deliver`: what is to be done with a block.
* `Docs.deliveries`: what is to be done with all of them; groups whose names will not do are
  skipped.
* `FileSystem.perform`: doing it.
-/

namespace ApiDocs

/-- Why a block goes nowhere. -/
inductive OutputError where
  /-- A path has an extension that output files do not have. -/
  | invalidExtension (path extension : Text)
  /-- A name cannot be the name of a file. -/
  | invalidName (name : Text)
  deriving DecidableEq

/-- The extension of output files. -/
def outputExtension : Text := "md".toList

def OutputError.message : OutputError → Text
  | invalidExtension path extension =>
    "Invalid extension: ".toList ++ extension ++ " (from ".toList ++ path ++
      "); valid extensions: ".toList ++ outputExtension
  | invalidName name =>
    "Invalid output name: ".toList ++ name ++
      "; a group name must be a plain file name".toList

namespace Output

/-- A path with the extension of output files, which is added if there is none. -/
def finalizePath (path : Text) : Except OutputError Text :=
  match Path.extension? path with
  | none => .ok (Path.withExtension path outputExtension)
  | some extension =>
    if extension == outputExtension then .ok path else .error (.invalidExtension path extension)

/-- Whether a name stands for one file inside any folder. -/
def isPlainName (name : Text) : Bool :=
  !name.contains '/' && !name.contains '\\' && !Path.isIdle name && !Path.isUp name

/-- A name that stands for one file inside any folder. -/
def checkName (name : Text) : Except OutputError Text :=
  if isPlainName name then .ok name else .error (.invalidName name)

end Output

/-- Where blocks go. -/
inductive Sink where
  /-- To one file, each over the one before. -/
  | file (path : Text)
  /-- To files of their own names inside a folder. -/
  | directory (root : Text)
  | standardOutput
  | memory
  deriving DecidableEq

/-- What is to be done with a block. -/
inductive Delivery where
  /-- The file at `path` gets the content, after `folder` has been made unless it is empty. -/
  | write (folder path content : Text)
  | print (content : Text)
  | keep (name content : Text)
  deriving DecidableEq

/-- The path of the file that is written. -/
def Delivery.path? : Delivery → Option Text
  | write _ path _ => some path
  | _ => none

namespace Sink

/-- The sink of one file. -/
def ofFile (path : Text) : Except OutputError Sink := (Output.finalizePath path).map file

/-- What is to be done with a block of a name. -/
def deliver : Sink → Text → Text → Except OutputError Delivery
  | file path, _, content => .ok (.write ((Path.parent? path).getD []) path content)
  | directory root, name, content => do
    let path ← Output.finalizePath (Path.join root (← Output.checkName name))
    return .write root path content
  | standardOutput, _, content => .ok (.print content)
  | memory, name, content => .ok (.keep name content)

end Sink

/-- What is to be done with documentation, and the groups that are skipped. -/
structure Deliveries where
  steps : List Delivery
  skipped : List Text
  deriving DecidableEq

namespace Docs

/-- What is to be done with the blocks of groups. -/
def groupDeliveries (sink : Sink) : List (Text × Text) → Deliveries
  | [] => ⟨[], []⟩
  | (group, block) :: rest =>
    let more := groupDeliveries sink rest
    match sink.deliver group block with
    | .ok step => ⟨step :: more.steps, more.skipped⟩
    | .error _ => ⟨more.steps, group :: more.skipped⟩

/-- What is to be done with documentation. One block goes under the given name, and then the name
has to do; the blocks of groups go under the names of the groups. -/
def deliveries (sink : Sink) (name : Text) : Docs → Except OutputError Deliveries
  | single block => (sink.deliver name block).map fun step => ⟨[step], []⟩
  | grouped blocks => .ok (groupDeliveries sink blocks)

end Docs

namespace FileSystem

/-- Does what is to be done with a block, as far as files go. Says whether it could be done; what
has been made on the way remains. -/
def perform (fs : FileSystem) : Delivery → FileSystem × Bool
  | .write folder path content =>
    match fs.makeDirectories folder with
    | (fs, false) => (fs, false)
    | (fs, true) =>
      match fs.write? path content with
      | some fs => (fs, true)
      | none => (fs, false)
  | .print _ | .keep _ _ => (fs, true)

/-- Does one thing after the other, until one cannot be done. -/
def performAll (fs : FileSystem) : List Delivery → FileSystem × Bool
  | [] => (fs, true)
  | d :: rest =>
    match fs.perform d with
    | (fs, false) => (fs, false)
    | (fs, true) => fs.performAll rest

end FileSystem

end ApiDocs
