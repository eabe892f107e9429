import ApiDocs.Json.Reader

/-!
# TOML strings

Four kinds of strings: with escapes or without, on one line or on several. The line breaks of
a string are kept as they are written, with a carriage return or without.

* `Toml.basicString?`, `Toml.literalString?`: strings on one line.
* `Toml.longBasicString?`, `Toml.longLiteralString?`: strings on several lines.
* `Toml.string?`: a string of any kind.
-/

namespace ApiDocs

namespace Toml

/-- Whether a character may not stand anywhere in a document: a control character other than
a tab or a line break. -/
def isForbidden (c : Char) : Bool :=
  (c.toNat < 0x20 && c != '\t' && c != '\n' && c != '\r') || c.toNat == 0x7F

/-- The character of a code point that an escape gives in hexadecimal. -/
def charOfHex? (digits : Text) : Option Char := do
  let values ← digits.mapM Json.Reader.hexDigit?
  let n := values.foldl (fun n d => 16 * n + d) 0
  if n < 0xD800 || (0xDFFF < n && n < 0x110000) then some (Char.ofNat n) else none

/-- The character that a one-letter escape stands for. -/
def escaped? : Char → Option Char
  | 'b' => some '\x08'
  | 't' => some '\t'
  | 'n' => some '\n'
  | 'f' => some '\x0c'
  | 'r' => some '\r'
  | 'e' => some '\x1b'
  | '"' => some '"'
  | '\\' => some '\\'
  | _ => none

/-- The character of an escape whose backslash has been read, and the length of the escape. -/
def escape? : Text → Option (Char × Nat)
  | 'x' :: a :: b :: _ => (charOfHex? [a, b]).map (·, 3)
  | 'u' :: a :: b :: c :: d :: _ => (charOfHex? [a, b, c, d]).map (·, 5)
  | 'U' :: a :: b :: c :: d :: e :: f :: g :: h :: _ =>
    (charOfHex? [a, b, c, d, e, f, g, h]).map (·, 9)
  | c :: _ => (escaped? c).map (·, 1)
  | [] => none

/-! ## On one line -/

/-- The text of a string with escapes up to its closing quote, and what follows. The first `skip`
characters belong to an escape that has been read. -/
def basicFrom : Nat → Text → Option (Text × Text)
  | _, [] => none
  | skip + 1, _ :: rest => basicFrom skip rest
  | 0, c :: rest =>
    if c == '"' then some ([], rest)
    else if c == '\\' then do
      let (e, length) ← escape? rest
      let (more, rest) ← basicFrom length rest
      some (e :: more, rest)
    else if isForbidden c || c == '\n' || c == '\r' then none
    else do
      let (more, rest) ← basicFrom 0 rest
      some (c :: more, rest)

/-- A string with escapes whose opening quote has been read. -/
def basicString? (s : Text) : Option (Text × Text) := basicFrom 0 s

/-- A string without escapes whose opening quote has been read. -/
def literalString? (s : Text) : Option (Text × Text) := do
  let (text, rest) ← Text.cutAtFirst? (· == '\x27') s
  if text.any fun c => isForbidden c || c == '\n' || c == '\r' then none else some (text, rest)

/-! ## On several lines -/

/-- What is being read of a string on several lines. -/
inductive LongState where
  /-- The text itself, after so many characters of an escape. -/
  | plain (skip : Nat)
  /-- The blanks between a backslash and the end of its line. -/
  | beforeBreak
  /-- The blanks and line breaks after a line that ends in a backslash. -/
  | afterBreak

/-- The text from a run of three quotes on: up to two more belong to the string. -/
def closeLong (quote : Char) (rest : Text) : Text × Text :=
  let extra := (rest.take 2).takeWhile (· == quote)
  (extra, rest.drop extra.length)

/-- Whether three quotes come next. -/
def closes (quote : Char) (s : Text) : Bool := [quote, quote, quote].isPrefixOf s

/-- The text of a string with escapes on several lines, and what follows it. -/
def longBasicFrom : LongState → Text → Option (Text × Text)
  | _, [] => none
  | .plain (skip + 1), _ :: rest => longBasicFrom (.plain skip) rest
  | .beforeBreak, c :: rest =>
    if c == ' ' || c == '\t' then longBasicFrom .beforeBreak rest
    else if c == '\n' || (c == '\r' && rest.head? == some '\n') then longBasicFrom .afterBreak rest
    else none
  | state, c :: rest =>
    let trimming := match state with
      | .afterBreak => true
      | _ => false
    if trimming && (c == ' ' || c == '\t' || c == '\n' || (c == '\r' && rest.head? == some '\n'))
    then longBasicFrom .afterBreak rest
    else if closes '"' (c :: rest) then some (closeLong '"' (rest.drop 2))
    else if c == '\\' then
      match rest.head? with
      | none => none
      | some d =>
        if d == ' ' || d == '\t' || d == '\n' || d == '\r' then longBasicFrom .beforeBreak rest
        else do
          let (e, length) ← escape? rest
          let (more, rest) ← longBasicFrom (.plain length) rest
          some (e :: more, rest)
    else if isForbidden c || (c == '\r' && rest.head? != some '\n') then none
    else do
      let (more, rest) ← longBasicFrom (.plain 0) rest
      some (c :: more, rest)

/-- The text of a string without escapes on several lines, and what follows it. -/
def longLiteralFrom : Text → Option (Text × Text)
  | [] => none
  | c :: rest =>
    if closes '\x27' (c :: rest) then some (closeLong '\x27' (rest.drop 2))
    else if isForbidden c || (c == '\r' && rest.head? != some '\n') then none
    else do
      let (more, rest) ← longLiteralFrom rest
      some (c :: more, rest)

/-- The text without a line break at its start. -/
def dropFirstBreak : Text → Text
  | '\n' :: rest => rest
  | '\r' :: '\n' :: rest => rest
  | s => s

/-- A string with escapes whose three opening quotes have been read. -/
def longBasicString? (s : Text) : Option (Text × Text) :=
  longBasicFrom (.plain 0) (dropFirstBreak s)

/-- A string without escapes whose three opening quotes have been read. -/
def longLiteralString? (s : Text) : Option (Text × Text) := longLiteralFrom (dropFirstBreak s)

def string? : Text → Option (Text × Text)
  | '"' :: '"' :: '"' :: rest => longBasicString? rest
  | '\x27' :: '\x27' :: '\x27' :: rest => longLiteralString? rest
  | '"' :: rest => basicString? rest
  | '\x27' :: rest => literalString? rest
  | _ => none

end Toml

end ApiDocs
