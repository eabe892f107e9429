import ApiDocs.Run.Error

/-!
# Scripts

A script is what a run does: texts that it prints, blocks that it delivers, and whether it fails in
the end. Nothing in a script depends on how its steps turn out; a run stops at a block that cannot
be delivered.

* `Script`: the steps of a run.
* `RunState`: the files, and what has been printed.
* `RunState.perform`: what a script does to them.
-/

namespace ApiDocs

/-- A step of a run. -/
inductive Action where
  /-- Prints a text to standard output. -/
  | print (text : Text)
  /-- Prints a line to standard error. -/
  | note (line : Text)
  /-- Delivers a block; if that cannot be done, the run fails. -/
  | deliver (d : Delivery) (failure : RunError)
  deriving DecidableEq

/-- The steps of a run, and why it fails after them, if it does. -/
structure Script where
  actions : List Action
  failure : Option RunError := none
  deriving DecidableEq

namespace Script

/-- The run that fails at once. -/
def fail (e : RunError) : Script := ⟨[], some e⟩

/-- A run with notes before all else. -/
def noting (lines : List Text) (s : Script) : Script :=
  { s with actions := lines.map Action.note ++ s.actions }

end Script

/-- The text that a delivery prints. -/
def Delivery.printed : Delivery → Text
  | print content => content
  | write .. | keep .. => []

/-- The files, and what has been printed. -/
structure RunState where
  files : FileSystem
  standardOutput : Text := []
  standardError : Text := []
  deriving DecidableEq

namespace RunState

/-- Takes one step. Tells the failure if the step cannot be taken. -/
def act (s : RunState) : Action → RunState × Option RunError
  | .print text => ({ s with standardOutput := s.standardOutput ++ text }, none)
  | .note line => ({ s with standardError := s.standardError ++ line ++ "\n".toList }, none)
  | .deliver d failure =>
    let (files, done) := s.files.perform d
    ({ s with files := files, standardOutput := s.standardOutput ++ d.printed },
      if done then none else some failure)

/-- Takes one step after the other, until one cannot be taken. -/
def actAll (s : RunState) : List Action → RunState × Option RunError
  | [] => (s, none)
  | a :: rest =>
    match s.act a with
    | (s, none) => s.actAll rest
    | (s, some failure) => (s, some failure)

/-- What becomes of a run. -/
def perform (s : RunState) (script : Script) : RunState × Option RunError :=
  match s.actAll script.actions with
  | (s, none) => (s, script.failure)
  | (s, some failure) => (s, some failure)

end RunState

end ApiDocs
