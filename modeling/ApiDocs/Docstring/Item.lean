import ApiDocs.Docstring.Line
import ApiDocs.Docstring.Tag

/-!
# Items of a section

Under a header, items are told apart by their indentation: a line that is indented deeper than
the item before it continues that item. The first line that is neither deeper nor the head of
a new item makes the rest of the body belong to the item before it.

* `Item.appendLine`: a description with one more line joined to it.
* `Item.collect`: the items of a body.
* `Item.params`, `Item.errors`, `Item.returned?`: the documented things of a body.
-/

namespace ApiDocs

/-- An item of a section: its indentation and what it declares. -/
structure Item where
  indent : Nat
  head : Field.Head
  deriving DecidableEq

namespace Item

/-! ## Continuation lines -/

/-- Whether a code span is still open at the end of the text. -/
def inCodeSpan (s : Text) : Bool := s.count '\x60' % 2 == 1

/-- A description with one more line. The lines are joined by a blank, except that a line break
inside an open code span is kept. -/
def appendLine (description line : Text) : Text :=
  if description.isEmpty then line
  else description ++ (if inCodeSpan description then '\n' else ' ') :: line

/-- A description with all further lines joined to it. -/
def appendLines (description : Text) (lines : List Text) : Text :=
  lines.foldl appendLine description

/-- The item with one more line in its description. -/
def continued (item : Item) (line : Line) : Item :=
  { item with head.description := appendLine item.head.description line.trimmed }

/-! ## Collecting items -/

/-- The items from a current one on. -/
def collectFrom (head? : Text → Option Field.Head) : Item → List Line → List Item
  | item, [] => [item]
  | item, l :: rest =>
    if item.indent < l.indent then collectFrom head? (item.continued l) rest
    else
      match head? l.trimmed with
      | some head => item :: collectFrom head? ⟨l.indent, head⟩ rest
      | none => [rest.foldl continued (item.continued l)]

/-- The items of the lines of a body, none of them blank. Lines before the first head are
dropped. -/
def collectLines (head? : Text → Option Field.Head) : List Line → List Item
  | [] => []
  | l :: rest =>
    match head? l.trimmed with
    | some head => collectFrom head? ⟨l.indent, head⟩ rest
    | none => collectLines head? rest

/-- The items of a body. -/
def collect (head? : Text → Option Field.Head) (body : List Line) : List Item :=
  collectLines head? (body.filter (!·.isBlank))

/-! ## Documented things of a body -/

/-- The parameters of a body. -/
def params (body : List Line) : List ParamTag :=
  (collect Field.paramHead? body).map fun i => ⟨i.head.name, i.head.typeName, i.head.description⟩

/-- The errors of a body. -/
def errors (body : List Line) : List TypedTag :=
  (collect Field.errorHead? body).map fun i => ⟨i.head.typeName, i.head.description⟩

/-- What the first line under a header of return values says. Prose has no type. -/
def returnedHead (s : Text) : TypedTag :=
  match Field.split? s with
  | some (typeName, description) =>
    if typeName.isEmpty || Field.looksLikeType typeName then ⟨typeName, description⟩ else ⟨[], s⟩
  | none => if Field.looksLikeType s then ⟨s, []⟩ else ⟨[], s⟩

/-- The return value of a body: there is one at most, so every later line continues it. -/
def returned? (body : List Line) : Option TypedTag :=
  match (body.filter (!·.isBlank)).map (·.trimmed) with
  | [] => none
  | first :: more =>
    let tag := returnedHead first
    some { tag with description := appendLines tag.description more }

end Item

end ApiDocs
