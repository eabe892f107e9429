import ApiDocs.Docstring.Block
import ApiDocs.Docstring.Item
import ApiDocs.Docstring.Example

/-!
# Reading a docstring

The free text before the first block is the description; each block adds what it documents.
No text is refused: what does not fit is taken as the continuation of something or dropped.

* `Docstring.parse`: what a text documents.
* `Block.params`, `Block.errors`, `Block.returned?`, `Block.examples`: what one block adds.
-/

namespace ApiDocs

namespace Block

/-- The declaration of a field after its keyword, and its description. -/
def declaration? (first : Text) (continuation : List Text) : Option (Text × Text) := do
  let (declaration, inline) ← Field.split? (← ":".toList.isPrefixOf? first)
  let declared :=
    match Text.cutAtFirst? Text.isBlank declaration with
    | some (_, rest) => Text.trim rest
    | none => []
  some (declared, Item.appendLines inline continuation)

/-- The parameter that a field declares: the last word is its name, all before it its type. -/
def declaredParam (declared description : Text) : ParamTag :=
  match Text.cutAtLast? Text.isBlank declared with
  | some (typeName, name) => ⟨name, Text.trim typeName, description⟩
  | none => ⟨declared, [], description⟩

/-- The parameters that a block adds. -/
def params : Block → List ParamTag
  | body .parameters lines => Item.params lines
  | field .parameters first continuation =>
    ((declaration? first continuation).map fun (d, text) => declaredParam d text).toList
  | _ => []

/-- The errors that a block adds. -/
def errors : Block → List TypedTag
  | body .raises lines => Item.errors lines
  | field .raises first continuation =>
    ((declaration? first continuation).map fun (d, text) => ⟨d, text⟩).toList
  | _ => []

/-- The return value that a block gives, if it gives one. -/
def returned? : Block → Option TypedTag
  | body .returns lines => Item.returned? lines
  | field .returns first continuation =>
    (declaration? first continuation).map fun (d, text) => ⟨d, text⟩
  | _ => none

/-- The example code that a block adds. -/
def examples : Block → List ExampleBlock
  | body .examples lines => Example.blocks lines
  | _ => []

end Block

namespace Docstring

/-- The code of all blocks, with a blank line between two. -/
def joinExamples (blocks : List ExampleBlock) : Text :=
  "\n\n".toList.intercalate (blocks.map (·.code))

/-- What a text documents. The first return value that is given counts. -/
def parse (raw : Text) : Docstring :=
  let (before, blocks) := Block.gather (Line.ofText raw)
  let exampleBlocks := blocks.flatMap Block.examples
  { raw
    description := Text.trim ("\n".toList.intercalate (before.map (·.text)))
    params := blocks.flatMap Block.params
    returns := blocks.findSome? Block.returned?
    raises := blocks.flatMap Block.errors
    examples := joinExamples exampleBlocks
    exampleBlocks }

end Docstring

end ApiDocs
