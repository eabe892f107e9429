import ApiDocs.Text.Basic

/-!
# Text in bytes

Text arrives as bytes in UTF-8. Bytes are read one at a time; between two bytes the reader holds
the part of a character that it has seen. When a byte does not fit, the diagnosis says where the
last whole character ended and how many bytes the broken one has, or that the input ended too
early.

* `Utf8.decode`: the text of a list of bytes, or the diagnosis.
* `Utf8.Error.message`: the diagnosis in words.
-/

namespace ApiDocs

namespace Utf8

/-- Why bytes are not text. -/
structure Error where
  /-- Number of bytes before the character that is broken. -/
  validLength : Nat
  /-- Number of bytes that look like the start of a character; absent when the input ends inside
  one that is not broken so far. -/
  brokenLength : Option Nat
  deriving DecidableEq, Repr

/-- A character of which some bytes have been read. -/
structure Pending where
  /-- Number of bytes still to come. -/
  missing : Nat
  /-- Range of the next byte. -/
  low : Nat
  high : Nat
  /-- The bits that have been read. -/
  bits : Nat
  /-- Number of bytes that have been read. -/
  seen : Nat

/-- What the first byte of a character of more than one byte calls for. The range of the second
byte leaves out longer forms than needed, surrogates and what lies beyond the last plane. -/
def lead? (b : Nat) : Option Pending :=
  if 0xC2 ≤ b && b ≤ 0xDF then some ⟨1, 0x80, 0xBF, b % 0x20, 1⟩
  else if b == 0xE0 then some ⟨2, 0xA0, 0xBF, 0, 1⟩
  else if b == 0xED then some ⟨2, 0x80, 0x9F, 0xD, 1⟩
  else if 0xE1 ≤ b && b ≤ 0xEF then some ⟨2, 0x80, 0xBF, b % 0x10, 1⟩
  else if b == 0xF0 then some ⟨3, 0x90, 0xBF, 0, 1⟩
  else if 0xF1 ≤ b && b ≤ 0xF3 then some ⟨3, 0x80, 0xBF, b % 0x08, 1⟩
  else if b == 0xF4 then some ⟨3, 0x80, 0x8F, 4, 1⟩
  else none

/-- The text of the bytes, of which `valid` were read as whole characters before, and part of
a further one may have been read. -/
def decodeFrom (valid : Nat) : Option Pending → List UInt8 → Except Error Text
  | none, [] => .ok []
  | some _, [] => .error ⟨valid, none⟩
  | none, b :: rest =>
    let b := b.toNat
    if b < 0x80 then (decodeFrom (valid + 1) none rest).map (Char.ofNat b :: ·)
    else
      match lead? b with
      | some pending => decodeFrom valid (some pending) rest
      | none => .error ⟨valid, some 1⟩
  | some p, b :: rest =>
    let b := b.toNat
    if p.low ≤ b && b ≤ p.high then
      let bits := p.bits * 0x40 + b % 0x40
      if p.missing ≤ 1 then
        (decodeFrom (valid + p.seen + 1) none rest).map (Char.ofNat bits :: ·)
      else decodeFrom valid (some ⟨p.missing - 1, 0x80, 0xBF, bits, p.seen + 1⟩) rest
    else .error ⟨valid, some p.seen⟩

/-- The text of a list of bytes. -/
def decode (bytes : List UInt8) : Except Error Text := decodeFrom 0 none bytes

def Error.message (e : Error) : Text :=
  match e.brokenLength with
  | some n =>
    "invalid utf-8 sequence of ".toList ++ Text.ofNat n ++ " bytes from index ".toList ++
      Text.ofNat e.validLength
  | none => "incomplete utf-8 byte sequence from index ".toList ++ Text.ofNat e.validLength

end Utf8

end ApiDocs
