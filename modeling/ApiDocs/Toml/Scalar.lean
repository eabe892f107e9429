import ApiDocs.Json.Reader

/-!
# TOML scalars

Truth values, numbers, dates and times: everything that is written without quotes and brackets.

* `Toml.integer?`: decimal, hexadecimal, octal and binary integers.
* `Toml.float?`: numbers with a point or an exponent, and the two that are not finite.
* `Toml.isDateTime`: dates, times and both together.
* `Toml.scalar?`: any of them.

A number that is too large is well-formed and stands for no value.
-/

namespace ApiDocs

namespace Toml

/-! ## Numbers -/

/-- Digits of a kind, with single underscores allowed between them. -/
def isDigits (p : Char → Bool) (s : Text) : Bool :=
  (s.splitOn '_').all fun piece => !piece.isEmpty && piece.all p

/-- A decimal integer without sign; no digit follows a leading zero. -/
def isDecimal (s : Text) : Bool :=
  isDigits Char.isDigit s && (s.length == 1 || s.head? != some '0')

/-- The value of digits in a base. -/
def digitsIn (base : Nat) (s : Text) : Nat :=
  s.foldl (fun n c => ((Json.Reader.hexDigit? c).map (base * n + ·)).getD n) 0

/-- A number without its sign, and the sign. -/
def unsigned : Text → Option Char × Text
  | '+' :: rest => (some '+', rest)
  | '-' :: rest => (some '-', rest)
  | s => (none, s)

def isDigitIn (base : Nat) (c : Char) : Bool :=
  match Json.Reader.hexDigit? c with
  | some n => n < base
  | none => false

/-- The value of an integer with a mark of its base. -/
def marked? (base : Nat) (digits : Text) : Option Int :=
  if isDigits (isDigitIn base) digits then some (digitsIn base digits) else none

def integer? : Text → Option Int
  | '0' :: 'x' :: digits => marked? 16 digits
  | '0' :: 'o' :: digits => marked? 8 digits
  | '0' :: 'b' :: digits => marked? 2 digits
  | s =>
    let (sign, digits) := unsigned s
    if isDecimal digits then
      let n : Int := digitsIn 10 digits
      some (if sign == some '-' then -n else n)
    else none

/-- The range of integers: a larger one is no value. -/
def inRange (n : Int) : Bool := -Int.pow 2 127 ≤ n && n < Int.pow 2 128

/-- The least magnitude that no finite number of 53 binary digits and an exponent below 1024 is
nearest to: halfway from the largest such number to the next power of two. -/
def magnitudeLimit : Nat := (Nat.pow 2 54 - 1) * Nat.pow 2 970

/-- Whether a number given by its decimal digits, which stand before so many further places, is
below the limit. It is compared with the limit only if the place of its first digit leaves that
open. -/
def isFinite (digits : Text) (places : Int) : Bool :=
  let significant := digits.dropWhile (· == '0')
  let size := places + Int.ofNat significant.length
  if significant.isEmpty || size < 309 then true
  else if 309 < size then false
  else if 0 ≤ places then digitsIn 10 significant * Nat.pow 10 places.toNat < magnitudeLimit
  else digitsIn 10 significant < magnitudeLimit * Nat.pow 10 (-places).toNat

def exponent? (s : Text) : Option Int :=
  let (sign, digits) := unsigned s
  if isDigits Char.isDigit digits then
    let n : Int := digitsIn 10 digits
    some (if sign == some '-' then -n else n)
  else none

/-- The digits before and after the point of a number without sign and exponent. -/
def mantissa? (s : Text) : Option (Text × Text) :=
  match Text.cutAtFirst? (· == '.') s with
  | some (whole, fraction) =>
    if isDecimal whole && isDigits Char.isDigit fraction then
      some (whole.filter Char.isDigit, fraction.filter Char.isDigit)
    else none
  | none => if isDecimal s then some (s.filter Char.isDigit, []) else none

/-- The value of a number with a point or an exponent, or of one of the two that are not finite. -/
def float? (s : Text) : Option Json :=
  let body := (unsigned s).2
  if body == "inf".toList || body == "nan".toList then some (.numeral s)
  else
    let (m, e) := (Text.cutAtFirst? (fun c => c == 'e' || c == 'E') body).getD (body, "0".toList)
    match mantissa? m, exponent? e with
    | some (whole, fraction), some e =>
      let finite := isFinite (whole ++ fraction) (e - Int.ofNat fraction.length)
      some (if finite then .numeral s else .unreadable)
    | _, _ => none

/-! ## Dates and times -/

/-- The value of exactly `n` digits. -/
def fixedDigits? (n : Nat) (s : Text) : Option Nat :=
  if s.length == n && s.all Char.isDigit then some (Json.Reader.digitsValue s) else none

/-- Number of days of a month. -/
def daysIn (year month : Nat) : Nat :=
  if month == 2 then
    if (year % 4 == 0 && year % 100 != 0) || year % 400 == 0 then 29 else 28
  else if month == 4 || month == 6 || month == 9 || month == 11 then 30
  else 31

def isDate (s : Text) : Bool :=
  match s.splitOn '-' with
  | [y, m, d] =>
    match fixedDigits? 4 y, fixedDigits? 2 m, fixedDigits? 2 d with
    | some year, some month, some day =>
      1 ≤ month && month ≤ 12 && 1 ≤ day && day ≤ daysIn year month
    | _, _, _ => false
  | _ => false

/-- Whether two digits are a number of at most `limit`. -/
def isTwoDigits (limit : Nat) (s : Text) : Bool :=
  match fixedDigits? 2 s with
  | some n => n ≤ limit
  | none => false

/-- Whether a text is the seconds of a time, with or without a fraction. -/
def isSeconds (s : Text) : Bool :=
  match Text.cutAtFirst? (· == '.') s with
  | some (whole, fraction) =>
    isTwoDigits 60 whole && !fraction.isEmpty && fraction.all Char.isDigit
  | none => isTwoDigits 60 s

/-- Whether a text is a time of day. The seconds may be left out. -/
def isTime (s : Text) : Bool :=
  match s.splitOn ':' with
  | [h, m] => isTwoDigits 23 h && isTwoDigits 59 m
  | [h, m, sec] => isTwoDigits 23 h && isTwoDigits 59 m && isSeconds sec
  | _ => false

/-- Whether a text is a time of day with an offset, or without one. -/
def isOffsetTime (s : Text) : Bool :=
  match Text.cutAtFirst? (fun c => c == 'Z' || c == 'z') s with
  | some (time, rest) => isTime time && rest.isEmpty
  | none =>
    match Text.cutAtFirst? (fun c => c == '+' || c == '-') s with
    | some (time, offset) =>
      isTime time &&
        match offset.splitOn ':' with
        | [h, m] => isTwoDigits 23 h && isTwoDigits 59 m
        | _ => false
    | none => isTime s

def isDateTime (s : Text) : Bool :=
  isDate s || isTime s ||
    match Text.cutAtFirst? (fun c => c == 'T' || c == 't' || c == ' ') s with
    | some (date, time) => isDate date && isOffsetTime time
    | none => false

/-- The one field of the record that stands for a date or a time. -/
def dateTimeKey : Text := "$__toml_private_datetime".toList

/-! ## Scalars -/

/-- Whether a character ends a scalar. -/
def endsScalar (c : Char) : Bool :=
  c == ' ' || c == '\t' || c == '\n' || c == '\r' || c == ',' || c == ']' || c == '\x7d' || c == '#'

/-- The text of a scalar and what follows it. A blank between a date and a time belongs to
them. -/
def scalarText (s : Text) : Text × Text :=
  let first := s.takeWhile (!endsScalar ·)
  let rest := s.dropWhile (!endsScalar ·)
  match rest with
  | ' ' :: c :: more =>
    if isDate first && c.isDigit then
      let second := (c :: more).takeWhile (!endsScalar ·)
      (first ++ " ".toList ++ second, (c :: more).dropWhile (!endsScalar ·))
    else (first, rest)
  | _ => (first, rest)

/-- The value of the text of a scalar. -/
def scalar? (s : Text) : Option Json :=
  if s == "true".toList then some (.bool true)
  else if s == "false".toList then some (.bool false)
  else
    match integer? s with
    | some n => some (if inRange n then .integer n else .unreadable)
    | none =>
      match float? s with
      | some j => some j
      | none => if isDateTime s then some (.object [(dateTimeKey, .string s)]) else none

end Toml

end ApiDocs
