import ApiDocs.Docstring.Parser
import ApiDocs.Page.Member
import ApiDocs.Page.Strategy
import ApiDocs.Page.TagText

/-!
# Documentation of a member

The documentation of a member is a list of Markdown blocks without their final line break:
heading, signature and what its docstring says, and for a type the documentation of its members.

* `Assembler.sectionChunks`: the blocks of a docstring.
* `Assembler.callableChunks`, `Assembler.typeChunks`: the blocks of a member.
* `Assembler.documentMember`: the blocks of a member at the top level.
-/

namespace ApiDocs

/-- What documentation depends on besides the strategies. -/
structure AssembleOptions where
  /-- The language of signatures and of code that names none. -/
  language : Text := defaultLanguage
  /-- Whether inherited members are documented. -/
  includeInherited : Bool := false
  deriving DecidableEq

/-- All that decides how a member is documented. -/
structure Assembler where
  strategies : Strategies
  options : AssembleOptions

/-- The text of a heading, with underscores kept from marking emphasis. -/
def escapeHeading (s : Text) : Text := Text.replaceChar '_' "\\_".toList s

namespace Assembler

/-! ## Blocks -/

/-- Elements as one block of text. -/
def block (nodes : List Node) : Text :=
  Text.dropEndWhile (· == '\n') (Document.toMarkdown ⟨nodes⟩)

/-- A heading as a block. -/
def headingBlock (depth : UInt8) (title : Text) : Text :=
  block [.headingAt depth [.text (escapeHeading title)]]

/-- A title in bold with what stands under it; nothing if nothing does. -/
def titledBlock (title : Text) (body : List Node) : List Text :=
  if body.isEmpty then [] else [block (.paragraph [.strong [.text title]] :: body)]

/-- A list with an item for each documented thing of which there is something to show. -/
def tagList (tags : List DocTag) : List Node :=
  let items := (tags.map DocTag.inline).filter (!·.isEmpty)
  if items.isEmpty then [] else [.list (items.map fun nodes => .listItem [.paragraph nodes])]

/-! ## Docstrings -/

/-- What a docstring documents, under the strategy for reading it. -/
def read (a : Assembler) (doc : Option Text) : Docstring :=
  match a.strategies.parser, doc with
  | .rst, some raw => Docstring.parse raw
  | .rst, none => .empty

/-- Example code, each block in its own language. -/
def exampleNodes (a : Assembler) (d : Docstring) : List Node :=
  let styled := d.exampleBlocks.map fun b =>
    a.strategies.styler.styler.styleAs b.code (b.language.getD a.options.language)
  (styled.filter (!·.isEmpty)).map .html

/-- The return value, if there is something to show of it. -/
def returnNodes (d : Docstring) : List Node :=
  match d.returns with
  | none => []
  | some t =>
    let nodes := (DocTag.returns t).inline
    if nodes.isEmpty then [] else [.paragraph nodes]

/-- The blocks of a docstring: its description and what it documents. -/
def sectionChunks (a : Assembler) (d : Docstring) : List Text :=
  (if d.description.isEmpty then [] else [d.description]) ++
    titledBlock "Parameters:".toList (tagList (d.params.map .param)) ++
    titledBlock "Returns:".toList (returnNodes d) ++
    titledBlock "Raises:".toList (tagList (d.raises.map .error)) ++
    titledBlock "Example:".toList (a.exampleNodes d)

/-! ## Members -/

/-- The blocks of a callable or a property under a name. -/
def callableChunks (a : Assembler) (depth : UInt8) (name : Text) (m : Member) : List Text :=
  headingBlock depth name :: block [.code (some a.options.language) (m.signature name)] ::
    a.sectionChunks (a.read m.doc)

/-- The blocks of a type without those of its members. -/
def ownTypeChunks (a : Assembler) (depth : UInt8) (m : Member) : List Text :=
  headingBlock depth ("Class ".toList ++ m.effectiveName) :: a.sectionChunks (a.read m.doc)

/-- Whether a member of a type is left out. -/
def hides (a : Assembler) (m : Member) : Bool :=
  m.isPrivate || (m.inherited && !a.options.includeInherited)

mutual

/-- The blocks of a type and of the members that it shows, one level further down. -/
def typeChunks (a : Assembler) (depth : UInt8) : Member → List Text
  | m@⟨_, _, _, _, _, _, _, members⟩ =>
    a.ownTypeChunks depth m ++ a.memberChunks (depth + 1) members

/-- The blocks of the members of a type. -/
def memberChunks (a : Assembler) (depth : UInt8) : List Member → List Text
  | [] => []
  | m :: rest =>
    (if a.hides m then []
      else
        match m.kind with
        | .type => a.typeChunks depth m
        | .callable | .property => a.callableChunks depth m.effectiveName m) ++
      a.memberChunks depth rest

end

/-! ## The top level -/

/-- Depth of the heading of a type at the top level. -/
def typeDepth : UInt8 := 2

/-- Depth of the heading of a callable at the top level. -/
def callableDepth : UInt8 := 3

/-- The anchor of a type at the top level. -/
def anchor (m : Member) : Text := "<a id=\"".toList ++ m.effectiveName ++ "\"></a>".toList

/-- The blocks of a callable or a property, under a name that may be given. -/
def documentCallable (a : Assembler) (displayName : Option Text) (m : Member) : List Text :=
  a.callableChunks callableDepth (displayName.getD m.effectiveName) m

/-- The blocks of a type. Only at the top level it has an anchor. -/
def documentType (a : Assembler) (nested : Bool) (m : Member) : List Text :=
  if nested then a.typeChunks (typeDepth + 1) m else anchor m :: a.typeChunks typeDepth m

/-- The blocks of a member of any kind. -/
def documentMember (a : Assembler) (m : Member) : List Text :=
  match m.kind with
  | .type => a.documentType false m
  | .callable | .property => a.documentCallable none m

end Assembler

end ApiDocs
