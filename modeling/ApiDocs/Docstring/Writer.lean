import ApiDocs.Docstring.Section
import ApiDocs.Docstring.Tag

/-!
# Writing a docstring

A docstring is written in the underlined section form, whatever form it was read from.

* `Docstring.write`: the text of a docstring.
* `Docstring.fieldLine`: an item with its description, later lines indented.
-/

namespace ApiDocs

namespace Docstring

/-- The header of a section and its underline. -/
def sectionHeader (k : Section) : Text :=
  k.title ++ '\n' :: List.replicate k.title.length '-'

/-- The head of an item with its description. Lines after the first are indented, so that they
continue the item. -/
def fieldLine (head description : Text) : Text :=
  match description.splitOn '\n' with
  | [] => head
  | first :: more =>
    head ++ (if first.isEmpty then [] else ' ' :: first) ++ more.flatMap ("\n    ".toList ++ ·)

def paramLine (p : ParamTag) : Text :=
  let head :=
    if p.typeName.isEmpty then p.name ++ ":".toList
    else p.name ++ " (".toList ++ p.typeName ++ "):".toList
  fieldLine head p.description

def typedLine (t : TypedTag) : Text := fieldLine (t.typeName ++ ":".toList) t.description

/-- A section with one line for each of its items. -/
def sectionBlock (k : Section) (items : List Text) : Text :=
  sectionHeader k ++ items.flatMap ('\n' :: ·)

/-- An example block with its directive, if it names a language. -/
def exampleText (b : ExampleBlock) : Text :=
  match b.language with
  | some language => ".. code-block:: ".toList ++ language ++ "\n\n".toList ++ b.code
  | none => b.code

/-- The blocks of a docstring as they are written. -/
def writtenBlocks (d : Docstring) : List Text :=
  (if d.description.isEmpty then [] else [d.description]) ++
  (if d.params.isEmpty then [] else [sectionBlock .parameters (d.params.map paramLine)]) ++
  d.returns.toList.map (fun r => sectionBlock .returns [typedLine r]) ++
  (if d.raises.isEmpty then [] else [sectionBlock .raises (d.raises.map typedLine)]) ++
  d.exampleBlocks.map fun b => sectionBlock .examples [exampleText b]

/-- The text of a docstring. -/
def write (d : Docstring) : Text := "\n\n".toList.intercalate d.writtenBlocks

end Docstring

end ApiDocs
