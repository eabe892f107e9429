import ApiDocs.Text.Basic

/-!
# Documented things

What a docstring documents: parameters, a return value, errors and example code.

* `ParamTag`, `TypedTag`: one documented thing, with and without a name of its own.
* `DocTag`: any of them, with its role.
* `Docstring`: all that was found in one docstring.
* `Docstring.tags`: the documented things in section order.
-/

namespace ApiDocs

/-- A documented parameter. -/
structure ParamTag where
  name : Text
  typeName : Text
  description : Text
  deriving DecidableEq

/-- A type and what is said about it: a return value, an error, or anything else. -/
structure TypedTag where
  typeName : Text
  description : Text
  deriving DecidableEq

/-- A documented thing of any role. -/
inductive DocTag where
  | param (tag : ParamTag)
  | returns (tag : TypedTag)
  | error (tag : TypedTag)
  | generic (tag : TypedTag)
  deriving DecidableEq

namespace DocTag

/-- The type that a documented thing has, whatever its role. -/
def typeName : DocTag → Text
  | param t => t.typeName
  | returns t | error t | generic t => t.typeName

/-- What is said about a documented thing, whatever its role. -/
def description : DocTag → Text
  | param t => t.description
  | returns t | error t | generic t => t.description

/-- The name of a documented thing; only a parameter has one. -/
def name? : DocTag → Option Text
  | param t => some t.name
  | _ => none

end DocTag

/-- A block of example code, with the language that its directive names. -/
structure ExampleBlock where
  language : Option Text
  code : Text
  deriving DecidableEq

/-- All that was found in one docstring. -/
structure Docstring where
  /-- The text that was read. -/
  raw : Text
  /-- The free text before the first section or field. -/
  description : Text
  params : List ParamTag
  returns : Option TypedTag
  raises : List TypedTag
  /-- The code of all example blocks. -/
  examples : Text
  exampleBlocks : List ExampleBlock
  deriving DecidableEq

namespace Docstring

/-- The docstring in which nothing was found. -/
def empty : Docstring := ⟨[], [], [], none, [], [], []⟩

def isEmpty (d : Docstring) : Bool :=
  d.description.isEmpty && d.params.isEmpty && d.returns.isNone && d.raises.isEmpty &&
    d.examples.isEmpty

/-- The documented things: parameters, the return value, errors. -/
def tags (d : Docstring) : List DocTag :=
  d.params.map .param ++ d.returns.toList.map .returns ++ d.raises.map .error

/-- Whether two docstrings say the same, in whatever words they were written. -/
def sameContent (d e : Docstring) : Bool := decide ({ d with raw := [] } = { e with raw := [] })

end Docstring

end ApiDocs
