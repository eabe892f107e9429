import ApiDocs.Json.Basic

/-!
# Writing JSON text

JSON text with one element or field on a line, two blanks of indentation for each level, and
only those characters escaped that have to be.

* `Json.Printer.escape`: a character inside a string.
* `Json.pretty`: the text of a value.
-/

namespace ApiDocs.Json

namespace Printer

def hexDigit (n : Nat) : Char := (Nat.toDigits 16 n).headD '0'

/-- A character as it stands inside a string. -/
def escape (c : Char) : Text :=
  if c == '"' then "\\\"".toList
  else if c == '\\' then "\\\\".toList
  else if c == '\x08' then "\\b".toList
  else if c == '\x0c' then "\\f".toList
  else if c == '\n' then "\\n".toList
  else if c == '\r' then "\\r".toList
  else if c == '\t' then "\\t".toList
  else if c.toNat < 0x20 then "\\u00".toList ++ [hexDigit (c.toNat / 16), hexDigit (c.toNat % 16)]
  else [c]

/-- A text between quotes. -/
def quoted (s : Text) : Text := '"' :: s.flatMap escape ++ "\"".toList

/-- An integer in decimal. -/
def integerText : Int → Text
  | .ofNat n => Text.ofNat n
  | .negSucc n => '-' :: Text.ofNat (n + 1)

/-- A line break and the indentation of a level. -/
def newline (level : Nat) : Text := '\n' :: List.replicate (2 * level) ' '

/-- The parts of a collection between its brackets, each on a line of its own. -/
def bracketed (opening closing : Char) (level : Nat) : List Text → Text
  | [] => [opening, closing]
  | parts =>
    opening :: newline (level + 1) ++ (',' :: newline (level + 1)).intercalate parts ++
      newline level ++ [closing]

mutual

/-- The text of a value at a level of indentation. -/
def value (level : Nat) : Json → Text
  | null | unreadable => "null".toList
  | bool true => "true".toList
  | bool false => "false".toList
  | integer n => integerText n
  | numeral text => text
  | string s => quoted s
  | array xs => bracketed '[' ']' level (elements (level + 1) xs)
  | object fs => bracketed '\x7b' '\x7d' level (fields (level + 1) fs)

/-- The texts of the elements of an array. -/
def elements (level : Nat) : List Json → List Text
  | [] => []
  | x :: xs => value level x :: elements level xs

def fields (level : Nat) : List (Text × Json) → List Text
  | [] => []
  | (key, x) :: rest => (quoted key ++ ": ".toList ++ value level x) :: fields level rest

end

end Printer

/-- The text of a value. -/
def pretty (j : Json) : Text := Printer.value 0 j

end ApiDocs.Json
