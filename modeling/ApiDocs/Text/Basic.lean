/-!
# Text

Text is a list of Unicode scalar values. Every rule of the library that looks at characters is
a structural recursion on such a list; machine strings appear only where text enters or leaves
a program.

* `Text.trim`, `Text.trimStart`, `Text.trimEnd`: the text without its blank ends.
* `Text.words`: the maximal runs of characters that are not blank.
* `Text.cutAtFirst?`, `Text.cutAtLast?`: the text on either side of one character.
* `Text.lowerAscii`, `Text.sameWord`: comparison that does not see the case of ASCII letters.
* `Text.ofNat`: a number in decimal.
-/

namespace ApiDocs

/-- A text: its characters in order. -/
abbrev Text := List Char

namespace Text

/-! ## Blank characters -/

/-- Whether a character is white space: the Unicode property `White_Space`. -/
def isBlank (c : Char) : Bool :=
  let n := c.toNat
  (0x09 ≤ n && n ≤ 0x0D) || n == 0x20 || n == 0x85 || n == 0xA0 || n == 0x1680 ||
    (0x2000 ≤ n && n ≤ 0x200A) || n == 0x2028 || n == 0x2029 || n == 0x202F || n == 0x205F ||
    n == 0x3000

/-- The text without the blanks at its start. -/
def trimStart (s : Text) : Text := s.dropWhile isBlank

/-- The text without the characters at its end that satisfy `p`. -/
def dropEndWhile (p : Char → Bool) (s : Text) : Text := (s.reverse.dropWhile p).reverse

/-- The text without the blanks at its end. -/
def trimEnd (s : Text) : Text := dropEndWhile isBlank s

/-- The text without the blanks at either end. -/
def trim (s : Text) : Text := trimEnd (trimStart s)

/-- Whether there is nothing but blanks. -/
def blank (s : Text) : Bool := s.all isBlank

/-- Number of blanks at the start. -/
def indent (s : Text) : Nat := (s.takeWhile isBlank).length

/-- The maximal runs of characters that are not blank, in order. -/
def words (s : Text) : List Text := (s.splitOnP isBlank).filter (fun w => !w.isEmpty)

/-! ## Cutting -/

/-- The text before and after the first character that satisfies `p`, if there is one. -/
def cutAtFirst? (p : Char → Bool) : Text → Option (Text × Text)
  | [] => none
  | c :: cs =>
    if p c then some ([], cs) else (cutAtFirst? p cs).map fun (a, b) => (c :: a, b)

/-- The text before and after the last character that satisfies `p`, if there is one. -/
def cutAtLast? (p : Char → Bool) : Text → Option (Text × Text)
  | [] => none
  | c :: cs =>
    match cutAtLast? p cs with
    | some (a, b) => some (c :: a, b)
    | none => if p c then some ([], cs) else none

/-- Each occurrence of the character `c` written as `r`. -/
def replaceChar (c : Char) (r : Text) (s : Text) : Text :=
  s.flatMap fun d => if d == c then r else [d]

/-! ## Letter case -/

/-- The text with its ASCII capitals in lower case; every other character is kept. -/
def lowerAscii (s : Text) : Text := s.map Char.toLower

/-- Whether two texts differ at most in the case of ASCII letters. -/
def sameWord (s t : Text) : Bool := lowerAscii s == lowerAscii t

/-! ## Numbers -/

/-- A number in decimal digits. -/
def ofNat (n : Nat) : Text := Nat.toDigits 10 n

/-- Texts in order, with a comma and a space between them. -/
def commaList (ts : List Text) : Text := ", ".toList.intercalate ts

end Text

end ApiDocs
