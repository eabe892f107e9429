import ApiDocs.Text.Basic
import ApiDocs.Text.Alphanumeric

/-!
# Field syntax

The parts of a line that declares something: a colon outside brackets divides the declaration
from its description, a type may stand in parentheses after a name, and a text may read as a
type annotation.

* `Field.split?`: the two sides of the first colon at bracket depth zero.
* `Field.closeParen?`: the inside and the rest of an already opened parenthesis.
* `Field.looksLikeType`: whether a text reads as a type rather than as prose.
* `Field.paramHead?`, `Field.errorHead?`: the opening line of an item of a section.
-/

namespace ApiDocs

namespace Field

/-! ## Brackets -/

/-- Whether a character opens a bracket of any kind. -/
def isOpening (c : Char) : Bool := c == '(' || c == '[' || c == '\x7b'

/-- Whether a character closes a bracket of any kind. -/
def isClosing (c : Char) : Bool := c == ')' || c == ']' || c == '\x7d'

/-- Bracket depth after one more character. A closing bracket without an opening one leaves the
depth at zero. -/
def depthAfter (depth : Nat) (c : Char) : Nat :=
  if isOpening c then depth + 1 else if isClosing c then depth - 1 else depth

/-- The text on either side of the first colon at depth zero, when the text starts at `depth`. -/
def cutAtColon? : Nat → Text → Option (Text × Text)
  | _, [] => none
  | depth, c :: cs =>
    if c == ':' && depth == 0 then some ([], cs)
    else (cutAtColon? (depthAfter depth c) cs).map fun (a, b) => (c :: a, b)

/-- The trimmed text on either side of the first colon outside brackets. -/
def split? (s : Text) : Option (Text × Text) :=
  (cutAtColon? 0 s).map fun (a, b) => (Text.trim a, Text.trim b)

/-- The text inside and after a parenthesis of which `depth + 1` are open. -/
def cutAtParen? : Nat → Text → Option (Text × Text)
  | _, [] => none
  | depth, c :: cs =>
    if c == ')' then
      match depth with
      | 0 => some ([], cs)
      | depth + 1 => (cutAtParen? depth cs).map fun (a, b) => (c :: a, b)
    else
      (cutAtParen? (if c == '(' then depth + 1 else depth) cs).map fun (a, b) => (c :: a, b)

/-- The text inside and after the parenthesis that stands just before the text. Only round
brackets count. -/
def closeParen? (s : Text) : Option (Text × Text) := cutAtParen? 0 s

/-! ## Types -/

/-- Whether no blank stands outside brackets, when the text starts at `depth`. -/
def solid : Nat → Text → Bool
  | _, [] => true
  | depth, c :: cs => !(Text.isBlank c && depth == 0) && solid (depthAfter depth c) cs

/-- Whether a text reads as a type annotation: it does not end a sentence, and each of the
alternatives between bars is one token, blanks being allowed inside brackets only. -/
def looksLikeType (s : Text) : Bool :=
  let t := Text.trim s
  !t.isEmpty && t.getLast? != some '.' &&
    (t.splitOn '|').all fun alt =>
      let alt := Text.trim alt
      !alt.isEmpty && solid 0 alt

/-! ## Heads of items -/

/-- What the first line of an item declares. -/
structure Head where
  name : Text
  typeName : Text
  description : Text
  deriving DecidableEq

/-- Whether a character may occur in the name of a parameter. -/
def isNameChar (c : Char) : Bool := Text.isAlphanumeric c || c == '_' || c == '*'

/-- What follows the type of a parameter: nothing, or a colon and the description. -/
def tailDescription? (tail : Text) : Option Text :=
  match Text.trimStart tail with
  | [] => some []
  | ':' :: rest => some (Text.trim rest)
  | _ => none

/-- `name (type): description`, `name: description` or `name : type`. -/
def paramHead? (s : Text) : Option Head :=
  let name := s.takeWhile isNameChar
  let rest := s.dropWhile isNameChar
  if name.isEmpty then none
  else
    match Text.trimStart rest with
    | '(' :: inner => do
      let (typeName, tail) ← closeParen? inner
      let description ← tailDescription? tail
      some ⟨name, Text.trim typeName, description⟩
    | ':' :: after =>
      if rest.head? == some ':' then some ⟨name, [], Text.trim after⟩
      else some ⟨name, Text.trim after, []⟩
    | _ => none

/-- `type: description`, or a type on its own; the type may be left out before the colon. -/
def errorHead? (s : Text) : Option Head :=
  match split? s with
  | some (typeName, description) =>
    if typeName.isEmpty || looksLikeType typeName then some ⟨[], typeName, description⟩ else none
  | none => if looksLikeType s then some ⟨[], s, []⟩ else none

end Field

end ApiDocs
