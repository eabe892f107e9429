import ApiDocs.Toml.Quoted
import ApiDocs.Toml.Scalar
import ApiDocs.Toml.Table

/-!
# Reading TOML text

* `Toml.key?`: a key, which may have dots.
* `Toml.value?`: a value.
* `Toml.read?`: the table of a whole document.
-/

namespace ApiDocs

namespace Toml

/-! ## White space -/

/-- The text without blanks and tabs at its start. -/
def skipBlanks (s : Text) : Text := s.dropWhile fun c => c == ' ' || c == '\t'

/-- The text after white space, line breaks and comments; absent if one of them holds what it may
not hold. -/
def skipGap : Bool → Text → Option Text
  | _, [] => some []
  | inComment, c :: rest =>
    if c == '\n' then skipGap false rest
    else if c == '\r' then if rest.head? == some '\n' then skipGap inComment rest else none
    else if inComment then if isForbidden c then none else skipGap true rest
    else if c == ' ' || c == '\t' then skipGap false rest
    else if c == '#' then skipGap true rest
    else some (c :: rest)

/-- The text after the end of the line: white space and a comment may stand before it. -/
def endLine : Bool → Text → Option Text
  | _, [] => some []
  | inComment, c :: rest =>
    if c == '\n' then some rest
    else if c == '\r' then if rest.head? == some '\n' then endLine inComment rest else none
    else if inComment then if isForbidden c then none else endLine true rest
    else if c == ' ' || c == '\t' then endLine false rest
    else if c == '#' then endLine true rest
    else none

/-! ## Keys -/

/-- Whether a character may stand in a key without quotes. -/
def isBareKeyChar (c : Char) : Bool := c.isAlphanum || c == '_' || c == '-'

/-- One part of a key: a word, or a string on one line. -/
def keyPart? (s : Text) : Option (Text × Text) :=
  match s with
  | '"' :: rest => basicString? rest
  | '\x27' :: rest => literalString? rest
  | _ =>
    let word := s.takeWhile isBareKeyChar
    if word.isEmpty then none else some (word, s.dropWhile isBareKeyChar)

/-- At most `n` parts of a key, with dots between them. -/
def keyParts? : Nat → Text → Option (List Text × Text)
  | 0, _ => none
  | n + 1, s => do
    let (part, rest) ← keyPart? (skipBlanks s)
    match skipBlanks rest with
    | '.' :: rest =>
      let (more, rest) ← keyParts? n rest
      some (part :: more, rest)
    | rest => some ([part], rest)

/-- How many parts a key may have. -/
def maxKeyParts : Nat := 80

/-- A key and what follows it. -/
def key? (s : Text) : Option (List Text × Text) := keyParts? maxKeyParts s

/-! ## Values -/

/-- How many arrays and tables in braces may lie within each other. -/
def maxDepth : Nat := 80

mutual

/-- A value, within which so many arrays and tables may lie, and what follows it. -/
def value? (fuel depth : Nat) (s : Text) : Option (Json × Text) :=
  match fuel with
  | 0 => none
  | fuel + 1 =>
    match s, depth with
    | '"' :: _, _ | '\x27' :: _, _ => do
      let (text, rest) ← string? s
      some (.string text, rest)
    | '[' :: rest, depth + 1 => do
      let (xs, rest) ← elements? fuel depth rest
      some (.array xs, rest)
    | '\x7b' :: rest, depth + 1 => do
      let (es, rest) ← inlineFields? fuel depth [] rest
      some (.object (fieldsToJson es), rest)
    | s, _ => do
      let (text, rest) := scalarText s
      some (← scalar? text, rest)

/-- The elements of an array up to its closing bracket. -/
def elements? (fuel depth : Nat) (s : Text) : Option (List Json × Text) :=
  match fuel with
  | 0 => none
  | fuel + 1 => do
    match ← skipGap false s with
    | ']' :: rest => some ([], rest)
    | s =>
      let (x, rest) ← value? fuel depth s
      match ← skipGap false rest with
      | ']' :: rest => some ([x], rest)
      | ',' :: rest =>
        let (xs, rest) ← elements? fuel depth rest
        some (x :: xs, rest)
      | _ => none

/-- The entries of a table in braces up to the closing brace, added to those before them. White
space, line breaks and comments may stand around all its parts. -/
def inlineFields? (fuel depth : Nat) (es : Entries) (s : Text) : Option (Entries × Text) :=
  match fuel with
  | 0 => none
  | fuel + 1 => do
    match ← skipGap false s with
    | '\x7d' :: rest => some (es, rest)
    | s =>
      let (key, rest) ← key? s
      let '=' :: rest ← skipGap false rest | none
      let (v, rest) ← value? fuel depth (← skipGap false rest)
      let es ← insertDotted? v key es
      match ← skipGap false rest with
      | '\x7d' :: rest => some (es, rest)
      | ',' :: rest => inlineFields? fuel depth es rest
      | _ => none

end

/-! ## Documents -/

/-- What has been read of a document: its entries and the path of the current table. -/
structure State where
  root : Entries
  path : List Text

/-- The effect of a header. -/
def header? (change? : Text → Entries → Option Entries) (path : List Text) (st : State) :
    Option State := do
  let last ← path.getLast?
  some ⟨← changeAt? (change? last) path.dropLast st.root, path⟩

/-- Reads one line that is not empty, and gives what follows the line. A value may span several
lines. -/
def line? (st : State) : Text → Option (State × Text)
  | '[' :: '[' :: rest => do
    let (path, rest) ← key? rest
    let ']' :: ']' :: rest := rest | none
    some (← header? appendTable? path st, ← endLine false rest)
  | '[' :: rest => do
    let (path, rest) ← key? rest
    let ']' :: rest := rest | none
    some (← header? openTable? path st, ← endLine false rest)
  | s => do
    let (key, rest) ← key? s
    let '=' :: rest := rest | none
    let rest := skipBlanks rest
    let (v, rest) ← value? (2 * rest.length + 2) maxDepth rest
    let root ← changeAt? (insertDotted? v key) st.path st.root
    some ({ st with root }, ← endLine false rest)

/-- Reads lines one after another. -/
def lines? : Nat → State → Text → Option State
  | 0, _, _ => none
  | fuel + 1, st, s => do
    match ← skipGap false s with
    | [] => some st
    | s =>
      let (st, rest) ← line? st s
      lines? fuel st rest

/-- The text without a byte order mark at its start. -/
def dropMark (s : Text) : Text := if s.head? == some '\ufeff' then s.drop 1 else s

/-- The table of a document. Each line uses up a character, so the fuel suffices. -/
def read? (document : Text) : Option Json := do
  let s := dropMark document
  let st ← lines? (s.length + 1) ⟨[], []⟩ s
  some (.object (fieldsToJson st.root))

end Toml

end ApiDocs
