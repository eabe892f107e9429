import ApiDocs.Docstring.Line

/-!
# Blocks of a docstring

A header owns the lines up to the next header or field. A field owns the text lines that follow
it directly; the text after the blank line that ends a field belongs to nothing.

* `Block.gather`: the lines before the first block, and the blocks.
-/

namespace ApiDocs

/-- A section with its body, or a field with its lines. -/
inductive Block where
  /-- A section and the lines under its header, without the underline. -/
  | body (kind : Section) (lines : List Line)
  /-- A field: its first line and those that continue it, all trimmed. -/
  | field (kind : Section) (first : Text) (continuation : List Text)
  deriving DecidableEq

namespace Block

/-- The lines that belong to a header or a field, out of those before the next one. -/
def ownedLines (lines : List Line) : List Line := lines.filter (·.kind != .underline)

/-- The block that a line opens, given the lines up to the next block. -/
def opened? (l : Line) (following : List Line) : Option Block :=
  match l.kind with
  | .header k => some (body k (ownedLines following))
  | .field k =>
    some (field k l.trimmed
      (((ownedLines following).takeWhile (!·.isBlank)).map (·.trimmed)))
  | _ => none

/-- The lines before the first header or field, and the blocks from there on. -/
def gather : List Line → List Line × List Block
  | [] => ([], [])
  | l :: rest =>
    let (following, blocks) := gather rest
    match opened? l following with
    | some block => ([], block :: blocks)
    | none => (l :: following, blocks)

end Block

end ApiDocs
