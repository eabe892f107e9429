import Mathlib.Tactic.SplitIfs
import ApiDocs.Text.Utf8

/-!
# Text in bytes is read back

The bytes of a text in UTF-8 are read back as that text: the first byte of a character says how
many more belong to it, and the range that it sets for the second byte holds for every character
that is written with it.

* `Utf8.encode`: the bytes of a text.
* `Utf8.decode_encode`: these bytes are read as the text.
-/

namespace ApiDocs

namespace Utf8

/-- The bytes of a text. -/
def encode (t : Text) : List UInt8 := t.flatMap String.utf8EncodeChar

/-! ## First bytes -/

theorem lead?_two {v : Nat} (h : 0x7F < v) (h' : v ≤ 0x7FF) :
    lead? (v / 64 + 192) = some ⟨1, 0x80, 0xBF, v / 64, 1⟩ := by
  unfold lead?
  rw [if_pos (by simp; omega)]
  simp
  omega

theorem lead?_three {v : Nat} (h : 0x7FF < v) (h' : v ≤ 0xFFFF)
    (hvalid : v < 0xD800 ∨ 0xDFFF < v) :
    ∃ low high, lead? (v / 4096 + 224) = some ⟨2, low, high, v / 4096, 1⟩ ∧
      low ≤ v / 64 % 64 + 128 ∧ v / 64 % 64 + 128 ≤ high := by
  unfold lead?
  simp only [Bool.and_eq_true, decide_eq_true_eq, beq_iff_eq]
  split_ifs
  · omega
  · exact ⟨0xA0, 0xBF, by simp; omega, by omega, by omega⟩
  · exact ⟨0x80, 0x9F, by simp; omega, by omega, by omega⟩
  · exact ⟨0x80, 0xBF, by simp; omega, by omega, by omega⟩
  all_goals omega

theorem lead?_four {v : Nat} (h : 0xFFFF < v) (h' : v < 0x110000) :
    ∃ low high, lead? (v / 262144 + 240) = some ⟨3, low, high, v / 262144, 1⟩ ∧
      low ≤ v / 4096 % 64 + 128 ∧ v / 4096 % 64 + 128 ≤ high := by
  unfold lead?
  simp only [Bool.and_eq_true, decide_eq_true_eq, beq_iff_eq]
  split_ifs
  · omega
  · omega
  · omega
  · omega
  · exact ⟨0x90, 0xBF, by simp; omega, by omega, by omega⟩
  · exact ⟨0x80, 0xBF, by simp; omega, by omega, by omega⟩
  · exact ⟨0x80, 0x8F, by simp; omega, by omega, by omega⟩
  · omega

/-! ## One byte -/

section Byte

variable {valid b missing low high bits seen : Nat}

theorem toNat_ofNat_byte (hb : b < 256) : (UInt8.ofNat b).toNat = b := by
  simp
  omega

theorem decodeFrom_lead {p : Pending} (rest : List UInt8) (h : 0x80 ≤ b) (hb : b < 256)
    (hp : lead? b = some p) :
    decodeFrom valid none (UInt8.ofNat b :: rest) = decodeFrom valid (some p) rest := by
  simp [decodeFrom, toNat_ofNat_byte hb, Nat.not_lt.mpr h, hp]

theorem decodeFrom_more (rest : List UInt8) (hb : b < 256) (hlow : low ≤ b) (hhigh : b ≤ high) :
    decodeFrom valid (some ⟨missing + 2, low, high, bits, seen⟩) (UInt8.ofNat b :: rest) =
      decodeFrom valid (some ⟨missing + 1, 0x80, 0xBF, bits * 0x40 + b % 0x40, seen + 1⟩)
        rest := by
  simp [decodeFrom, toNat_ofNat_byte hb, hlow, hhigh]

theorem decodeFrom_last (rest : List UInt8) (hb : b < 256) (hlow : low ≤ b) (hhigh : b ≤ high) :
    decodeFrom valid (some ⟨1, low, high, bits, seen⟩) (UInt8.ofNat b :: rest) =
      (decodeFrom (valid + seen + 1) none rest).map (Char.ofNat (bits * 0x40 + b % 0x40) :: ·) := by
  simp [decodeFrom, toNat_ofNat_byte hb, hlow, hhigh]

end Byte

/-! ## Characters -/

/-- The bytes of a character are read as that character, whatever follows them. -/
theorem decodeFrom_utf8EncodeChar (c : Char) (valid : Nat) (rest : List UInt8) :
    ∃ valid', decodeFrom valid none (String.utf8EncodeChar c ++ rest) =
      (decodeFrom valid' none rest).map (c :: ·) := by
  obtain ⟨v, hv⟩ : ∃ v, c.toNat = v := ⟨_, rfl⟩
  have hvalid : v < 0xD800 ∨ 0xDFFF < v ∧ v < 0x110000 := hv ▸ c.valid
  have hchar : ∀ n, n = v → Char.ofNat n = c := by
    rintro n rfl
    rw [← hv, Char.ofNat_toNat]
  have hval : c.val.toNat = v := hv
  simp only [String.utf8EncodeChar, hval]
  split_ifs with h1 h2 h3
  · refine ⟨valid + 1, ?_⟩
    simp only [List.singleton_append, decodeFrom, toNat_ofNat_byte (b := v) (by omega)]
    rw [if_pos (by omega), hchar v rfl]
  · have hmod : v / 64 % 32 = v / 64 := by omega
    refine ⟨valid + 1 + 1, ?_⟩
    rw [hmod, List.cons_append, decodeFrom_lead _ (by omega) (by omega)
      (lead?_two (by omega) h2), List.singleton_append,
      decodeFrom_last _ (by omega) (by omega) (by omega), hchar _ (by omega)]
  · obtain ⟨low, high, hlead, hlow, hhigh⟩ := lead?_three (v := v) (by omega) h3 (by omega)
    have hmod : v / 4096 % 16 = v / 4096 := by omega
    refine ⟨valid + 2 + 1, ?_⟩
    rw [hmod, List.cons_append, decodeFrom_lead _ (by omega) (by omega) hlead, List.cons_append,
      decodeFrom_more _ (by omega) hlow hhigh, List.singleton_append,
      decodeFrom_last _ (by omega) (by omega) (by omega), hchar _ (by omega)]
  · obtain ⟨low, high, hlead, hlow, hhigh⟩ := lead?_four (v := v) (by omega) (by omega)
    have hmod : v / 262144 % 8 = v / 262144 := by omega
    refine ⟨valid + 3 + 1, ?_⟩
    rw [hmod, List.cons_append, decodeFrom_lead _ (by omega) (by omega) hlead, List.cons_append,
      decodeFrom_more _ (by omega) hlow hhigh, List.cons_append,
      decodeFrom_more _ (by omega) (by omega) (by omega), List.singleton_append,
      decodeFrom_last _ (by omega) (by omega) (by omega), hchar _ (by omega)]

theorem decodeFrom_encode (t : Text) (valid : Nat) : decodeFrom valid none (encode t) = .ok t := by
  induction t generalizing valid with
  | nil => rfl
  | cons c t ih =>
    obtain ⟨valid', h⟩ := decodeFrom_utf8EncodeChar c valid (encode t)
    have hcons : encode (c :: t) = String.utf8EncodeChar c ++ encode t := rfl
    rw [hcons, h, ih]
    rfl

/-- The bytes of a text are read as that text. -/
theorem decode_encode (t : Text) : decode (encode t) = .ok t := decodeFrom_encode t 0

end Utf8

end ApiDocs
