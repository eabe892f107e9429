import ApiDocs.Json.Record
import ApiDocs.Markdown.Node

/-!
# Markdown trees in JSON

Each element is a record that names its kind. Inside another element the kind may also be given by
its number, counted from zero in the order of `Node.kinds`.

* `Node.toJson`, `Node.ofJson?`: one element.
* `Document.toJson`, `Document.ofJson?`: a document.
-/

namespace ApiDocs

open Json

namespace Node

/-- An element of a kind, with its fields. -/
def ofKind (kind : Text) (fields : List (Text × Json)) : Json :=
  .object (("type".toList, .string kind) :: fields)

mutual

def toJson : Node → Json
  | heading depth children =>
    ofKind "heading".toList
      [("depth".toList, .integer depth.toNat), ("children".toList, .array (listToJson children))]
  | paragraph children =>
    ofKind "paragraph".toList [("children".toList, .array (listToJson children))]
  | thematicBreak => ofKind "thematicBreak".toList []
  | list items => ofKind "list".toList [("children".toList, .array (listToJson items))]
  | listItem children =>
    ofKind "listItem".toList [("children".toList, .array (listToJson children))]
  | code lang value =>
    ofKind "code".toList
      [("lang".toList, (lang.map .string).getD .null), ("value".toList, .string value)]
  | text value => ofKind "text".toList [("value".toList, .string value)]
  | strong children => ofKind "strong".toList [("children".toList, .array (listToJson children))]
  | inlineCode value => ofKind "inlineCode".toList [("value".toList, .string value)]
  | html value => ofKind "html".toList [("value".toList, .string value)]

def listToJson : List Node → List Json
  | [] => []
  | n :: rest => toJson n :: listToJson rest

end

/-- A value with the list of elements that it stands for, if it stands for one. -/
abbrev Part := Json × Option (List Node)

def kinds : List Text :=
  ["heading".toList, "paragraph".toList, "thematicBreak".toList, "list".toList,
    "listItem".toList, "code".toList, "text".toList, "strong".toList, "inlineCode".toList,
    "html".toList]

/-- The kind that a value gives by name or, inside another element, by number. -/
def kindOf? (nested : Bool) : Json → Option Text
  | .string name => some name
  | j => if nested then j.nat?.bind (kinds[·]?) else none

def ofShape? (nested : Bool) (s : Shape Part) : Option Node := do
  let (kind, rest) ← s.tagged? "type".toList (kindOf? nested ·.1)
  let children (make : List Node → Node) : Option Node := do
    let r ← Record.ofShape? ["children".toList] rest
    some (make (← r.required? "children".toList (·.2)))
  let value (make : Text → Node) : Option Node := do
    let r ← Record.ofShape? ["value".toList] rest
    some (make (← r.required? "value".toList (·.1.string?)))
  if kind == "heading".toList then
    let r ← Record.ofShape? ["depth".toList, "children".toList] rest
    let depth ← r.required? "depth".toList (·.1.byte?)
    some (heading depth (← r.required? "children".toList (·.2)))
  else if kind == "paragraph".toList then children paragraph
  else if kind == "thematicBreak".toList then
    match rest with
    | .positional (_ :: _) => none
    | _ => some thematicBreak
  else if kind == "list".toList then children list
  else if kind == "listItem".toList then children listItem
  else if kind == "code".toList then
    let r ← Record.ofShape? ["lang".toList, "value".toList] rest
    let lang ← r.optional? "lang".toList (optionOf? string? ·.1)
    some (code lang (← r.required? "value".toList (·.1.string?)))
  else if kind == "text".toList then value text
  else if kind == "strong".toList then children strong
  else if kind == "inlineCode".toList then value inlineCode
  else if kind == "html".toList then value html
  else none

mutual

/-- The element that a value stands for, at the top of a document or inside another. -/
def ofJson? (nested : Bool) : Json → Option Node
  | .object fields => ofShape? nested (.named (fieldParts fields))
  | .array xs => ofShape? nested (.positional (parts xs))
  | _ => none

def childrenOfJson? (nested : Bool) : Json → Option (List Node)
  | .array xs => listOfJson? nested xs
  | _ => none

def listOfJson? (nested : Bool) : List Json → Option (List Node)
  | [] => some []
  | j :: rest => do some ((← ofJson? nested j) :: (← listOfJson? nested rest))

/-- Fields with the elements inside the current one that they stand for. -/
def fieldParts : List (Text × Json) → List (Text × Part)
  | [] => []
  | (key, j) :: rest => (key, j, childrenOfJson? true j) :: fieldParts rest

/-- Values with the elements inside the current one that they stand for. -/
def parts : List Json → List Part
  | [] => []
  | j :: rest => (j, childrenOfJson? true j) :: parts rest

end

end Node

namespace Document

def toJson (d : Document) : Json :=
  .object [("children".toList, .array (Node.listToJson d.children))]

def ofJson? (j : Json) : Option Document := do
  let r ← Record.ofJson? ["children".toList] j
  some ⟨← r.required? "children".toList (Node.childrenOfJson? false)⟩

end Document

end ApiDocs
