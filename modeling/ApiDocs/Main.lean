import ApiDocs.Run.Command

/-!
# The command

The command reads the files that the command line names, and performs the script of the run on the
files of the machine.
-/

namespace ApiDocs.Command

/-- What the machine has at a path. -/
def findFile (path : Text) : IO Found := do
  try
    return .text (← IO.FS.readFile (String.ofList path)).toList
  catch
    | .noFileOrDirectory .. => return .nothing
    | _ => return .unreadable

/-- Delivers a block. -/
def deliver : Delivery → IO Unit
  | .write folder path content => do
    if !folder.isEmpty then IO.FS.createDirAll (String.ofList folder)
    IO.FS.writeFile (String.ofList path) (String.ofList content)
  | .print content => do
    let out ← IO.getStdout
    out.putStr (String.ofList content)
    out.flush
  | .keep _ _ => return

/-- Takes steps, until one cannot be taken. -/
def takeSteps : List Action → IO (Option RunError)
  | [] => return none
  | .print text :: rest => do
    IO.print (String.ofList text)
    takeSteps rest
  | .note line :: rest => do
    IO.eprintln (String.ofList line)
    takeSteps rest
  | .deliver d failure :: rest => do
    let done ←
      try
        deliver d
        pure true
      catch _ => pure false
    if done then takeSteps rest else return some failure

/-- Prints why a run fails. -/
def report (e : RunError) : IO Unit := do
  IO.eprintln ("Error: " ++ String.ofList e.message)
  if let some cause := e.printedCause? then
    IO.eprintln ("\nCaused by:\n" ++ String.ofList (RunError.causeIndent ++ cause))

/-- Runs a command line that asks for something to be done. -/
def execute (a : CommandLine.Arguments) : IO Ending := do
  let sample ← findFile Config.defaultPath
  let config ← findFile a.configPath
  let manifest ← findFile (a.manifest.getD [])
  let script := a.script ⟨sample, config, manifest⟩
  let failure := (← takeSteps script.actions).or script.failure
  return .ofFailure? failure

end ApiDocs.Command

open ApiDocs in
/-- The command. -/
def main (words : List String) : IO UInt32 := do
  let ending ← match CommandLine.parse (words.map String.toList) with
    | .refused => do
      IO.eprintln "error: the arguments are not understood\n\nFor more information, try '--help'."
      pure .refused
    | .showHelp => do
      IO.print (String.ofList CommandLine.helpText)
      pure .success
    | .showVersion => do
      IO.print (String.ofList Command.versionText)
      pure .success
    | .run a => Command.execute a
  if let .failed e := ending then Command.report e
  return ending.status.toUInt32
