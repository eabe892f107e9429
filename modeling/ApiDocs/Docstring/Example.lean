import ApiDocs.Docstring.Line
import ApiDocs.Docstring.Tag

/-!
# Example code

A body of examples is cut at its code directives; each directive starts a block in the language
that it names. The code of a block is freed from its common margin.

* `Example.dedent`: lines without blank ends and without their common margin.
* `Example.blocks`: the code blocks of a body.
-/

namespace ApiDocs

namespace Example

/-! ## Margins -/

/-- The lines from the first to the last that is not blank. -/
def trimBlankLines (lines : List Text) : List Text :=
  ((lines.dropWhile Text.blank).reverse.dropWhile Text.blank).reverse

/-- The least indentation of a line that is not blank. -/
def margin (lines : List Text) : Nat :=
  (((lines.filter (!Text.blank ·)).map Text.indent).min?).getD 0

/-- The lines joined to one text, without the blank lines at either end and without the common
margin. A blank line between others becomes an empty one. -/
def dedent (lines : List Text) : Text :=
  let kept := trimBlankLines lines
  "\n".toList.intercalate
    (kept.map fun l => if Text.blank l then [] else l.drop (margin kept))

/-! ## Directives -/

/-- The language of a line that is a code directive; the inner value is absent if the directive
names none. -/
def directive? (s : Text) : Option (Option Text) :=
  let head := Text.trim s
  let rest := (".. code-block::".toList.isPrefixOf? head).or (".. code::".toList.isPrefixOf? head)
  rest.map fun language =>
    let language := Text.trim language
    if language.isEmpty then none else some language

/-- The lines before the first directive, and each directive's language and lines. -/
def splitAtDirectives : List Text → List Text × List (Option Text × List Text)
  | [] => ([], [])
  | s :: rest =>
    let (following, groups) := splitAtDirectives rest
    match directive? s with
    | some language => ([], (language, following) :: groups)
    | none => (s :: following, groups)

/-- The code blocks of a body, without empty ones. -/
def blocks (body : List Line) : List ExampleBlock :=
  let (before, groups) := splitAtDirectives (body.map (·.text))
  (((none, before) :: groups).map fun (language, lines) => ⟨language, dedent lines⟩).filter
    fun b => !b.code.isEmpty

end Example

end ApiDocs
