import ApiDocs.Json.Record
import ApiDocs.Json.Printer
import ApiDocs.Docstring.Tag

/-!
# Docstrings in JSON

* `Docstring.toJson`, `Docstring.ofJson?`: a docstring as a record.
* `DocTag.toJson`, `DocTag.ofJson?`: a documented thing as a record that names its role.
-/

namespace ApiDocs

open Json

namespace ParamTag

def fields (t : ParamTag) : List (Text × Json) :=
  [("name".toList, .string t.name), ("type_name".toList, .string t.typeName),
    ("description".toList, .string t.description)]

def toJson (t : ParamTag) : Json := .object t.fields

def ofShape? (s : Shape Json) : Option ParamTag := do
  let r ← Record.ofShape? ["name".toList, "type_name".toList, "description".toList] s
  some ⟨← r.required? "name".toList string?, ← r.required? "type_name".toList string?,
    ← r.required? "description".toList string?⟩

def ofJson? (j : Json) : Option ParamTag := j.shape?.bind ofShape?

end ParamTag

namespace TypedTag

def fields (t : TypedTag) : List (Text × Json) :=
  [("type_name".toList, .string t.typeName), ("description".toList, .string t.description)]

def toJson (t : TypedTag) : Json := .object t.fields

/-- The return value or error that a record stands for. -/
def ofShape? (s : Shape Json) : Option TypedTag := do
  let r ← Record.ofShape? ["type_name".toList, "description".toList] s
  some ⟨← r.required? "type_name".toList string?, ← r.required? "description".toList string?⟩

/-- The return value or error that a value stands for. -/
def ofJson? (j : Json) : Option TypedTag := j.shape?.bind ofShape?

end TypedTag

namespace DocTag

def role : DocTag → Text
  | param _ => "param".toList
  | returns _ => "return".toList
  | error _ => "error".toList
  | generic _ => "generic".toList

/-- The fields of a documented thing without its role. -/
def fields : DocTag → List (Text × Json)
  | param t => t.fields
  | returns t | error t | generic t => t.fields

def toJson (t : DocTag) : Json := .object (("kind".toList, .string t.role) :: t.fields)

def ofJson? (j : Json) : Option DocTag := do
  let (role, rest) ← (← j.shape?).tagged? "kind".toList string?
  if role == "param".toList then (ParamTag.ofShape? rest).map param
  else if role == "return".toList then (TypedTag.ofShape? rest).map returns
  else if role == "error".toList then (TypedTag.ofShape? rest).map error
  else if role == "generic".toList then (TypedTag.ofShape? rest).map generic
  else none

end DocTag

namespace ExampleBlock

def toJson (b : ExampleBlock) : Json :=
  .object (optionalField "language".toList .string b.language ++ [("code".toList, .string b.code)])

def ofJson? (j : Json) : Option ExampleBlock := do
  let r ← Record.ofJson? ["language".toList, "code".toList] j
  some ⟨← r.defaulted? "language".toList none (optionOf? string?),
    ← r.required? "code".toList string?⟩

end ExampleBlock

namespace Docstring

def fieldNames : List Text :=
  ["raw".toList, "description".toList, "params".toList, "returns".toList, "raises".toList,
    "examples".toList, "example_blocks".toList]

def toJson (d : Docstring) : Json :=
  .object
    ([("raw".toList, .string d.raw), ("description".toList, .string d.description),
      ("params".toList, .array (d.params.map ParamTag.toJson)),
      ("returns".toList, (d.returns.map TypedTag.toJson).getD .null),
      ("raises".toList, .array (d.raises.map TypedTag.toJson)),
      ("examples".toList, .string d.examples)] ++
      listField "example_blocks".toList (d.exampleBlocks.map ExampleBlock.toJson))

def ofJson? (j : Json) : Option Docstring := do
  let r ← Record.ofJson? fieldNames j
  some
    { raw := ← r.required? "raw".toList string?
      description := ← r.required? "description".toList string?
      params := ← r.required? "params".toList (listOf? ParamTag.ofJson?)
      returns := ← r.optional? "returns".toList (optionOf? TypedTag.ofJson?)
      raises := ← r.required? "raises".toList (listOf? TypedTag.ofJson?)
      examples := ← r.required? "examples".toList string?
      exampleBlocks :=
        ← r.defaulted? "example_blocks".toList [] (listOf? ExampleBlock.ofJson?) }

def jsonText (d : Docstring) : Text := d.toJson.pretty

end Docstring

end ApiDocs
