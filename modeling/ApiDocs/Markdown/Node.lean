import ApiDocs.Text.Basic

/-!
# Markdown trees

The kinds of Markdown that documentation pages are made of.

* `Node`: a block or an inline element.
* `Document`: a list of blocks.
* `Node.headingAt`: a heading whose depth is brought into the range of Markdown.
-/

namespace ApiDocs

/-- A Markdown element. Any element may stand among the children of another; the writer says
what becomes of it there. -/
inductive Node where
  | heading (depth : UInt8) (children : List Node)
  | paragraph (children : List Node)
  | thematicBreak
  | list (items : List Node)
  | listItem (children : List Node)
  | code (lang : Option Text) (value : Text)
  | text (value : Text)
  | strong (children : List Node)
  | inlineCode (value : Text)
  /-- Markdown or HTML that is written as it stands. -/
  | html (value : Text)

/-- A Markdown document. -/
structure Document where
  children : List Node

namespace Node

/-- The nearest depth that a heading may have, from one to six. -/
def clampDepth (depth : UInt8) : UInt8 := if depth < 1 then 1 else if 6 < depth then 6 else depth

/-- A heading at the nearest depth that Markdown has. -/
def headingAt (depth : UInt8) (children : List Node) : Node := heading (clampDepth depth) children

end Node

end ApiDocs
