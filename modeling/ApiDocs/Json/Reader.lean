import ApiDocs.Json.Basic

/-!
# Reading JSON text

A strict reader of JSON text: no comments, no trailing commas, nothing after the value but white
space, no control characters in strings.

Two things are well-formed and still no value: a string with half of a surrogate pair, and what
nests deeper than a given limit. The reader gives such parts as `Json.unreadable`.

* `Json.Reader.number?`: the numerals.
* `Json.Reader.string?`: the strings.
* `Json.read?`: a whole text.
-/

namespace ApiDocs.Json

namespace Reader

def isSpace (c : Char) : Bool := c == ' ' || c == '\n' || c == '\t' || c == '\r'

/-- The text without the white space at its start. -/
def skipSpace (s : Text) : Text := s.dropWhile isSpace

/-! ## Numbers -/

/-- The value of a run of decimal digits. -/
def digitsValue (ds : Text) : Nat := ds.foldl (fun n d => 10 * n + (d.toNat - '0'.toNat)) 0

/-- The digits at the start, of which there has to be one, and what follows. -/
def digits? (s : Text) : Option (Text × Text) :=
  match s.span Char.isDigit with
  | ([], _) => none
  | (ds, rest) => some (ds, rest)

/-- The integer part of a number: no digit may follow a leading zero. -/
def integerPart? (s : Text) : Option (Text × Text) := do
  let (ds, rest) ← digits? s
  if ds.head? == some '0' && ds.length != 1 then none else some (ds, rest)

/-- The part of a number from the decimal point on; empty if there is none. -/
def fractionPart? : Text → Option (Text × Text)
  | '.' :: rest => do
    let (ds, rest) ← digits? rest
    some ('.' :: ds, rest)
  | rest => some ([], rest)

/-- The exponent of a number; empty if there is none. -/
def exponentPart? : Text → Option (Text × Text)
  | c :: rest =>
    if c == 'e' || c == 'E' then
      match rest with
      | sign :: more =>
        if sign == '+' || sign == '-' then do
          let (ds, rest) ← digits? more
          some (c :: sign :: ds, rest)
        else do
          let (ds, rest) ← digits? rest
          some (c :: ds, rest)
      | [] => none
    else some ([], c :: rest)
  | [] => some ([], [])

/-- A number and what follows it. A negative zero is no integer. -/
def number? (s : Text) : Option (Json × Text) := do
  let (sign, unsigned) :=
    match s with
    | '-' :: rest => ("-".toList, rest)
    | _ => ([], s)
  let (whole, rest) ← integerPart? unsigned
  let (fraction, rest) ← fractionPart? rest
  let (exponent, rest) ← exponentPart? rest
  if fraction.isEmpty && exponent.isEmpty then
    if sign.isEmpty then some (integer (digitsValue whole), rest)
    else if whole == "0".toList then some (numeral "-0".toList, rest)
    else some (integer (-(digitsValue whole : Int)), rest)
  else some (numeral (sign ++ whole ++ fraction ++ exponent), rest)

/-! ## Strings -/

/-- A part of a string as it is written: a character, or a numbered code unit. -/
inductive Piece where
  | char (c : Char)
  | codeUnit (n : Nat)

def hexDigit? (c : Char) : Option Nat :=
  if c.isDigit then some (c.toNat - '0'.toNat)
  else if 'a' ≤ c && c ≤ 'f' then some (c.toNat - 'a'.toNat + 10)
  else if 'A' ≤ c && c ≤ 'F' then some (c.toNat - 'A'.toNat + 10)
  else none

def hexValue? (a b c d : Char) : Option Nat := do
  some (((← hexDigit? a) * 16 + (← hexDigit? b)) * 256 + (← hexDigit? c) * 16 + (← hexDigit? d))

/-- The character that a one-letter escape stands for. -/
def escaped? : Char → Option Char
  | '"' => some '"'
  | '\\' => some '\\'
  | '/' => some '/'
  | 'b' => some '\x08'
  | 'f' => some '\x0c'
  | 'n' => some '\n'
  | 'r' => some '\r'
  | 't' => some '\t'
  | _ => none

/-- The parts of a string up to its closing quote, and what follows the quote. -/
def pieces? : Text → Option (List Piece × Text)
  | [] => none
  | '"' :: rest => some ([], rest)
  | '\\' :: 'u' :: a :: b :: c :: d :: rest => do
    let n ← hexValue? a b c d
    let (more, rest) ← pieces? rest
    some (.codeUnit n :: more, rest)
  | '\\' :: c :: rest => do
    let e ← escaped? c
    let (more, rest) ← pieces? rest
    some (.char e :: more, rest)
  | c :: rest =>
    if c.toNat < 0x20 || c == '\\' then none
    else do
      let (more, rest) ← pieces? rest
      some (.char c :: more, rest)

/-- Whether a code unit is the first half of a surrogate pair. -/
def isHighSurrogate (n : Nat) : Bool := 0xD800 ≤ n && n < 0xDC00

/-- Whether a code unit is the second half of a surrogate pair. -/
def isLowSurrogate (n : Nat) : Bool := 0xDC00 ≤ n && n < 0xE000

/-- The text that the parts of a string make up; absent if one is half of a surrogate pair. -/
def assemble? : List Piece → Option Text
  | [] => some []
  | .char c :: rest => (assemble? rest).map (c :: ·)
  | .codeUnit n :: .codeUnit m :: rest =>
    if isHighSurrogate n && isLowSurrogate m then
      (assemble? rest).map (Char.ofNat (0x10000 + (n - 0xD800) * 0x400 + (m - 0xDC00)) :: ·)
    else if isHighSurrogate n || isLowSurrogate n then none
    else (assemble? (.codeUnit m :: rest)).map (Char.ofNat n :: ·)
  | .codeUnit n :: rest =>
    if isHighSurrogate n || isLowSurrogate n then none
    else (assemble? rest).map (Char.ofNat n :: ·)

/-- The text of a string whose opening quote has been read, and what follows it. -/
def string? (s : Text) : Option (Option Text × Text) := do
  let (pieces, rest) ← pieces? s
  some (assemble? pieces, rest)

/-! ## Values -/

/-- A collection with its parts, unless it is nested too deeply or has an unreadable key. -/
def collected (depth : Nat) (value : Option Json) : Json :=
  match depth with
  | 0 => unreadable
  | _ + 1 => value.getD unreadable

mutual

/-- A value and what follows it. At most `depth` further collections may be nested. -/
def value? (fuel depth : Nat) (s : Text) : Option (Json × Text) :=
  match fuel with
  | 0 => none
  | fuel + 1 =>
    match skipSpace s with
    | 'n' :: 'u' :: 'l' :: 'l' :: rest => some (null, rest)
    | 't' :: 'r' :: 'u' :: 'e' :: rest => some (bool true, rest)
    | 'f' :: 'a' :: 'l' :: 's' :: 'e' :: rest => some (bool false, rest)
    | '"' :: rest => do
      let (text, rest) ← string? rest
      some ((text.map string).getD unreadable, rest)
    | '[' :: rest => do
      let (xs, rest) ←
        match skipSpace rest with
        | ']' :: rest => some ([], rest)
        | rest => elements? fuel (depth - 1) rest
      some (collected depth (array xs), rest)
    | '\x7b' :: rest => do
      let (fields, rest) ←
        match skipSpace rest with
        | '\x7d' :: rest => some (some [], rest)
        | rest => fields? fuel (depth - 1) rest
      some (collected depth (fields.map object), rest)
    | rest => number? rest

/-- The elements of an array up to its closing bracket, and what follows. -/
def elements? (fuel depth : Nat) (s : Text) : Option (List Json × Text) :=
  match fuel with
  | 0 => none
  | fuel + 1 => do
    let (x, rest) ← value? fuel depth s
    match skipSpace rest with
    | ']' :: rest => some ([x], rest)
    | ',' :: rest =>
      let (xs, rest) ← elements? fuel depth rest
      some (x :: xs, rest)
    | _ => none

/-- The fields of an object up to its closing brace, and what follows; the fields are absent if
a key is unreadable. -/
def fields? (fuel depth : Nat) (s : Text) : Option (Option (List (Text × Json)) × Text) :=
  match fuel with
  | 0 => none
  | fuel + 1 => do
    let '"' :: rest := skipSpace s | none
    let (key, rest) ← string? rest
    let ':' :: rest := skipSpace rest | none
    let (x, rest) ← value? fuel depth rest
    match skipSpace rest with
    | '\x7d' :: rest => some (key.map fun k => [(k, x)], rest)
    | ',' :: rest =>
      let (more, rest) ← fields? fuel depth rest
      some (key.bind fun k => more.map ((k, x) :: ·), rest)
    | _ => none

end

end Reader

/-- The value that a text stands for, of which no readable part nests deeper than `depth`.
Between two steps of the reader a character is used up, so the fuel suffices. -/
def read? (depth : Nat) (s : Text) : Option Json := do
  let (j, rest) ← Reader.value? (2 * s.length + 2) depth s
  if (Reader.skipSpace rest).isEmpty then some j else none

end ApiDocs.Json
