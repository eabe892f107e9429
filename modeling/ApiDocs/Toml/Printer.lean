import ApiDocs.Text.Basic

/-!
# Writing TOML text

A string is written in the plainest form that can hold it: between double quotes if nothing in it
needs an escape, between single quotes if that spares escapes, on several lines if it has line
breaks or both kinds of quotes, and with escapes otherwise.

* `Toml.Printer.string`: a string.
* `Toml.Printer.stringArray`: a list of strings, one on a line if there is more than one.
-/

namespace ApiDocs

namespace Toml

namespace Printer

/-- Length of the longest run of a character; `run` of them stand just before the text. -/
def longestRunFrom (c : Char) (best run : Nat) : Text → Nat
  | [] => best
  | d :: rest =>
    if d == c then longestRunFrom c (max best (run + 1)) (run + 1) rest
    else longestRunFrom c best 0 rest

/-- Length of the longest run of a character. -/
def longestRun (c : Char) (s : Text) : Nat := longestRunFrom c 0 0 s

/-- Whether a text has a control character that no form of a string holds as it stands. -/
def hasControl (s : Text) : Bool :=
  s.any fun c => (c.toNat < 0x20 && c != '\t' && c != '\n') || c.toNat == 0x7F

def hexDigit (n : Nat) : Char := ((Nat.toDigits 16 n).headD '0').toUpper

/-- A character with an escape. -/
def escape (c : Char) : Text :=
  if c == '\x08' then "\\b".toList
  else if c == '\t' then "\\t".toList
  else if c == '\n' then "\\n".toList
  else if c == '\x0c' then "\\f".toList
  else if c == '\r' then "\\r".toList
  else if c == '"' then "\\\"".toList
  else if c == '\\' then "\\\\".toList
  else if c.toNat < 0x20 || c.toNat == 0x7F then
    "\\u00".toList ++ [hexDigit (c.toNat / 16), hexDigit (c.toNat % 16)]
  else [c]

/-- Text inside three double quotes, of which `run` stand just before it. Line breaks stay, and
so do quotes, as long as there are no three in a row. -/
def escapeLong : Nat → Text → Text
  | _, [] => []
  | run, c :: rest =>
    if c == '\n' then c :: escapeLong 0 rest
    else if c == '"' then
      if run < 2 then c :: escapeLong (run + 1) rest else "\\\"".toList ++ escapeLong 0 rest
    else escape c ++ escapeLong 0 rest

/-- Between double quotes. -/
def basic (s : Text) : Text := "\"".toList ++ s.flatMap escape ++ "\"".toList

/-- Between single quotes. -/
def literal (s : Text) : Text := "'".toList ++ s ++ "'".toList

/-- What follows the opening quotes of a string on several lines. -/
def firstBreak (s : Text) : Text := if s.contains '\n' then "\n".toList else []

/-- Between three double quotes. -/
def longBasic (s : Text) : Text :=
  "\"\"\"".toList ++ firstBreak s ++ escapeLong 0 s ++ "\"\"\"".toList

/-- Between three single quotes. -/
def longLiteral (s : Text) : Text := "'''".toList ++ firstBreak s ++ s ++ "'''".toList

/-- A string in the plainest form that can hold it. -/
def string (s : Text) : Text :=
  let control := hasControl s
  let backslash := s.contains '\\'
  let breaks := s.contains '\n'
  let double := longestRun '"' s
  let single := longestRun '\x27' s
  if !control && !backslash && double == 0 && !breaks then basic s
  else if !control && single == 0 && !breaks then literal s
  else if !control && !backslash && double ≤ 2 then longBasic s
  else if !control && single ≤ 2 then longLiteral s
  else if breaks then longBasic s
  else basic s

def stringArray : List Text → Text
  | [] => "[]".toList
  | [s] => "[".toList ++ string s ++ "]".toList
  | ss =>
    "[\n".toList ++ ss.flatMap (fun s => "    ".toList ++ string s ++ ",\n".toList) ++ "]".toList

/-- A truth value. -/
def bool (b : Bool) : Text := if b then "true".toList else "false".toList

/-- A key with its value, on a line. -/
def line (key value : Text) : Text := key ++ " = ".toList ++ value ++ "\n".toList

def optionalLine {α : Type} (key : Text) (write : α → Text) : Option α → Text
  | none => []
  | some a => line key (write a)

/-- Tables with a blank line between any two. -/
def tables (parts : List Text) : Text := "\n".toList.intercalate (parts.filter (!·.isEmpty))

end Printer

end Toml

end ApiDocs
