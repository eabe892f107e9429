import ApiDocs.Docstring.Tag
import ApiDocs.Markdown.Writer

/-!
# Documented things in Markdown

A parameter is its name in bold, its type in parentheses and its description; any other thing is
its type and its description. What is empty is left out together with the marks around it.

* `DocTag.inline`: a documented thing as inline elements.
* `DocTag.toMarkdown`: a documented thing on its own, as a list of one item or, for a return
  value, as a line.
-/

namespace ApiDocs

namespace DocTag

/-- What stands before the description. -/
def headNodes : DocTag → List Node
  | param t =>
    .strong [.text t.name] ::
      (if t.typeName.isEmpty then []
        else [.text " (".toList, .inlineCode t.typeName, .text ")".toList])
  | returns t | error t | generic t => if t.typeName.isEmpty then [] else [.inlineCode t.typeName]

/-- A documented thing as inline elements; none if there is nothing to show. -/
def inline (t : DocTag) : List Node :=
  let head := t.headNodes
  if t.description.isEmpty then head
  else head ++ (if head.isEmpty then [] else [.text ": ".toList]) ++ [.text t.description]

def isReturn : DocTag → Bool
  | returns _ => true
  | _ => false

/-- A documented thing on its own. -/
def toMarkdown (t : DocTag) : Text :=
  let nodes := t.inline
  if nodes.isEmpty || t.isReturn then Markdown.inline nodes
  else Text.trimEnd (Document.toMarkdown ⟨[.list [.listItem [.paragraph nodes]]]⟩)

end DocTag

end ApiDocs
