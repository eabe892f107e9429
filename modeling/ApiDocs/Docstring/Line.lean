import ApiDocs.Docstring.Section
import ApiDocs.Docstring.Field

/-!
# Lines of a docstring

A docstring is cut into lines, and each line is given a kind. A header is a section word with
a colon (`Parameters:`, `:Example:`) or a section word that the next line underlines. A field is
a line such as `:param str name: text` that declares one thing on its own.

* `Line.ofText`: the lines of a text with their kinds.
* `Line.ownKind?`: the kind that a line has whatever stands around it.
-/

namespace ApiDocs

/-- What a line of a docstring is. -/
inductive LineKind where
  /-- Nothing but white space. -/
  | blank
  /-- Opens a section. -/
  | header (kind : Section)
  /-- Underlines the header above it. -/
  | underline
  /-- Declares one thing that belongs to a section. -/
  | field (kind : Section)
  /-- Anything else. -/
  | text
  deriving DecidableEq, Repr

/-- A line of a docstring, without its line ending. -/
structure Line where
  text : Text
  kind : LineKind
  deriving DecidableEq, Repr

namespace Line

/-- Number of blanks at the start of the line. -/
def indent (l : Line) : Nat := Text.indent l.text

/-- The line without the blanks at its ends. -/
def trimmed (l : Line) : Text := Text.trim l.text

/-- Whether the line has the kind of a blank line. -/
def isBlank (l : Line) : Bool := l.kind == .blank

/-- Whether the line opens a section or a field. -/
def opens (l : Line) : Bool :=
  match l.kind with
  | .header _ | .field _ => true
  | _ => false

/-! ## What a line says by itself -/

/-- A line without the carriage return of a two-character line ending. -/
def dropReturn (s : Text) : Text := if s.getLast? == some '\r' then s.dropLast else s

/-- The lines of a text. -/
def split (s : Text) : List Text := (s.splitOn '\n').map dropReturn

/-- The section of a line such as `Parameters:` or `:Parameters:`. -/
def colonHeader? (s : Text) : Option Section := do
  let word ← ":".toList.isSuffixOf? (Text.trim s)
  Section.ofWord? (Text.trim ((":".toList.isPrefixOf? word).getD word))

/-- The section to which a field belongs, by the words of its declaration. A parameter needs a
second word, since it needs a name. -/
def sectionOfKeyword? : List Text → Option Section
  | [] => none
  | word :: more =>
    let word := Text.lowerAscii word
    if (word == "param".toList || word == "parameter".toList) && !more.isEmpty then
      some .parameters
    else if word == "return".toList || word == "returns".toList then some .returns
    else if word == "raise".toList || word == "raises".toList then some .raises
    else none

/-- The section of a line such as `:param str name: text` or `:raises KeyError: text`. -/
def fieldSection? (s : Text) : Option Section := do
  let field ← ":".toList.isPrefixOf? (Text.trim s)
  let (declaration, _) ← Field.split? field
  sectionOfKeyword? (Text.words declaration)

/-- Three or more dashes, or three or more equals signs. -/
def isUnderline (s : Text) : Bool :=
  let t := Text.trim s
  3 ≤ t.length && (t.all (· == '-') || t.all (· == '='))

/-- The kind that a line has whatever stands around it. -/
def ownKind? (s : Text) : Option LineKind :=
  if Text.blank s then some .blank
  else
    match colonHeader? s with
    | some k => some (.header k)
    | none => (fieldSection? s).map .field

/-! ## Lines in context -/

/-- Gives each line its kind. A bare section word is a header when the line after it is an
underline, and then the underline is used up. -/
def classify : List Text → List Line
  | [] => []
  | [s] => [⟨s, (ownKind? s).getD .text⟩]
  | s :: next :: rest =>
    match ownKind? s, Section.ofWord? (Text.trim s), isUnderline next with
    | some kind, _, _ => ⟨s, kind⟩ :: classify (next :: rest)
    | none, some k, true => ⟨s, .header k⟩ :: ⟨next, .underline⟩ :: classify rest
    | none, _, _ => ⟨s, .text⟩ :: classify (next :: rest)

/-- The lines of a text with their kinds. -/
def ofText (s : Text) : List Line := classify (split s)

end Line

end ApiDocs
