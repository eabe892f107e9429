import Mathlib.Data.List.DropRight
import Mathlib.Data.List.Infix
import ApiDocs.Docstring.Field

/-!
# Trimmed text

A text that is its own trim neither starts nor ends with a blank. Trimming takes away blanks
only, and it does not see blanks that are put around a text. The same holds of any list that is
stripped of some of its elements at both ends, such as lines without the blank ones around them.

* `strip`: a list without the elements at its ends that satisfy a predicate.
* `Text.trim_eq_self_iff`: which texts are their own trim.
* `Text.exists_eq_trim`: a text is its trim between two runs of blanks.
* `Text.trim_blank_append`, `Text.trim_append_blank`: blanks around a text do not count.
* `Text.eq_of_trim_eq`: a trimmed text is found again before a character that is not blank.
* `Field.not_isBlank_of_isNameChar`: names contain no blanks.
-/

namespace ApiDocs

/-! ## Lists stripped at both ends -/

section Strip

variable {α : Type} {p : α → Bool}

/-- The list without the elements at its ends that satisfy `p`. -/
def strip (p : α → Bool) (l : List α) : List α := (l.dropWhile p).rdropWhile p

/-- A list is what is left of it between two runs of elements that satisfy `p`. -/
theorem exists_eq_strip (l : List α) :
    ∃ a b, (∀ x ∈ a, p x = true) ∧ (∀ x ∈ b, p x = true) ∧ l = a ++ strip p l ++ b := by
  refine ⟨l.takeWhile p, (l.dropWhile p).rtakeWhile p, fun x hx => List.mem_takeWhile_imp hx,
    fun x hx => List.mem_rtakeWhile_imp hx, ?_⟩
  rw [List.append_assoc, strip, List.rdropWhile_append_rtakeWhile,
    List.takeWhile_append_dropWhile]

theorem strip_append_left {a : List α} (ha : ∀ x ∈ a, p x = true) (l : List α) :
    strip p (a ++ l) = strip p l := by
  rw [strip, strip, List.dropWhile_append_of_pos ha]

theorem rdropWhile_append_right {b : List α} (hb : ∀ x ∈ b, p x = true) (l : List α) :
    (l ++ b).rdropWhile p = l.rdropWhile p := by
  unfold List.rdropWhile
  rw [List.reverse_append, List.dropWhile_append_of_pos fun x hx => hb x (List.mem_reverse.mp hx)]

theorem strip_eq_nil_iff {l : List α} : strip p l = [] ↔ ∀ x ∈ l, p x = true := by
  obtain ⟨a, b, ha, hb, hl⟩ := exists_eq_strip (p := p) l
  constructor
  · intro h x hx
    rw [hl, h, List.append_nil] at hx
    rcases List.mem_append.mp hx with hx | hx
    · exact ha x hx
    · exact hb x hx
  · intro h
    rw [strip, List.dropWhile_eq_nil_iff.mpr h, List.rdropWhile_nil]

theorem strip_append_right {b : List α} (hb : ∀ x ∈ b, p x = true) (l : List α) :
    strip p (l ++ b) = strip p l := by
  cases hl : l.dropWhile p with
  | nil =>
    -- nothing is left of the list, with or without more to strip at its end
    have hall := List.dropWhile_eq_nil_iff.mp hl
    rw [strip_eq_nil_iff.mpr hall, strip_eq_nil_iff]
    intro x hx
    rcases List.mem_append.mp hx with hx | hx
    · exact hall x hx
    · exact hb x hx
  | cons x t =>
    have happ : (l ++ b).dropWhile p = l.dropWhile p ++ b := by
      rw [List.dropWhile_append, hl]
      rfl
    rw [strip, happ, rdropWhile_append_right hb, strip]

theorem head_strip {l : List α} {x : α} (h : (strip p l).head? = some x) : p x = false := by
  have hhead : (l.dropWhile p).head? = some x := by
    obtain ⟨t, ht⟩ := List.rdropWhile_prefix p (l.dropWhile p)
    rw [← ht, List.head?_append, ← strip, h]
    rfl
  have := List.head?_dropWhile_not p l
  rw [hhead] at this
  simpa using this

theorem getLast_strip {l : List α} {x : α} (h : (strip p l).getLast? = some x) : p x = false := by
  have hne : strip p l ≠ [] := by
    rintro hnil
    simp [hnil] at h
  have hlast : (strip p l).getLast hne = x :=
    Option.some.inj ((List.getLast?_eq_some_getLast hne).symm.trans h)
  rw [← hlast]
  exact Bool.eq_false_iff.mpr (List.rdropWhile_last_not p (l.dropWhile p) hne)

/-- A list is not changed when neither its first nor its last element satisfies `p`. -/
theorem strip_eq_self_iff {l : List α} :
    strip p l = l ↔ (∀ x, l.head? = some x → p x = false) ∧
      ∀ x, l.getLast? = some x → p x = false := by
  constructor
  · intro h
    exact ⟨fun x hx => head_strip (l := l) (by rw [h, hx]),
      fun x hx => getLast_strip (l := l) (by rw [h, hx])⟩
  · rintro ⟨hhead, hlast⟩
    have hstart : l.dropWhile p = l := by
      cases l with
      | nil => rfl
      | cons x t => simp [hhead x rfl]
    rw [strip, hstart, List.rdropWhile_eq_self_iff]
    intro hne
    simp [hlast _ (List.getLast?_eq_some_getLast hne)]

theorem strip_strip (l : List α) : strip p (strip p l) = strip p l :=
  strip_eq_self_iff.mpr ⟨fun _ h => head_strip h, fun _ h => getLast_strip h⟩

theorem strip_isInfix (l : List α) : strip p l <:+: l := by
  obtain ⟨a, b, -, -, hl⟩ := exists_eq_strip (p := p) l
  exact ⟨a, b, hl.symm⟩

end Strip

namespace Text

/-! ## Blank texts -/

theorem blank_iff {s : Text} : blank s = true ↔ ∀ c ∈ s, isBlank c = true := by
  simp [blank]

@[simp] theorem blank_nil : blank [] = true := rfl

@[simp] theorem blank_append (s t : Text) : blank (s ++ t) = (blank s && blank t) := by
  simp [blank]

theorem blank_eq_false_of_mem {s : Text} {c : Char} (hc : c ∈ s) (h : isBlank c = false) :
    blank s = false := by
  by_contra hs
  have := blank_iff.mp (by simpa using hs) c hc
  simp [h] at this

theorem ne_nil_of_blank_eq_false {s : Text} (h : blank s = false) : s ≠ [] := by
  rintro rfl
  simp at h

/-! ## Trimming -/

theorem trimStart_cons_blank {c : Char} (h : isBlank c = true) (s : Text) :
    trimStart (c :: s) = trimStart s := by
  simp [trimStart, h]

theorem trimStart_cons_of_not_blank {c : Char} (h : isBlank c = false) (s : Text) :
    trimStart (c :: s) = c :: s := by
  simp [trimStart, h]

theorem trimEnd_append_blank {b : Text} (h : blank b = true) (s : Text) :
    trimEnd (s ++ b) = trimEnd s :=
  rdropWhile_append_right (blank_iff.mp h) s

/-- What is dropped at the end stands after the last character that is kept. -/
theorem dropEndWhile_append_of_not {p : Char → Bool} {c : Char} (hc : p c = false) (s t : Text) :
    dropEndWhile p (s ++ [c] ++ t) = s ++ [c] ++ dropEndWhile p t := by
  induction t using List.reverseRecOn with
  | nil => simp [dropEndWhile, hc]
  | append_singleton t d ih =>
    cases hd : p d with
    | true => simpa [dropEndWhile, hd] using ih
    | false => simp [dropEndWhile, hd]

theorem trimEnd_append_of_not_blank {c : Char} (h : isBlank c = false) (s : Text) :
    trimEnd (s ++ [c]) = s ++ [c] := by
  simp [trimEnd, dropEndWhile, h]

theorem exists_eq_trim (s : Text) :
    ∃ a b, blank a = true ∧ blank b = true ∧ s = a ++ trim s ++ b := by
  obtain ⟨a, b, ha, hb, hs⟩ := exists_eq_strip (p := isBlank) s
  exact ⟨a, b, blank_iff.mpr ha, blank_iff.mpr hb, hs⟩

theorem trim_blank_append {a : Text} (h : blank a = true) (s : Text) :
    trim (a ++ s) = trim s :=
  strip_append_left (blank_iff.mp h) s

theorem trim_append_blank {b : Text} (h : blank b = true) (s : Text) :
    trim (s ++ b) = trim s :=
  strip_append_right (blank_iff.mp h) s

theorem trim_cons_blank {c : Char} (h : isBlank c = true) (s : Text) :
    trim (c :: s) = trim s := by
  rw [trim, trim, trimStart_cons_blank h]

theorem trim_append_singleton_blank {c : Char} (h : isBlank c = true) (s : Text) :
    trim (s ++ [c]) = trim s :=
  trim_append_blank (by simp [blank, h]) s

theorem trim_eq_nil_iff {s : Text} : trim s = [] ↔ blank s = true := by
  rw [blank_iff]
  exact strip_eq_nil_iff

theorem trim_eq_self_iff {s : Text} :
    trim s = s ↔ (∀ c, s.head? = some c → isBlank c = false) ∧
      ∀ c, s.getLast? = some c → isBlank c = false :=
  strip_eq_self_iff

theorem trim_of_forall_not_blank {s : Text} (h : ∀ c ∈ s, isBlank c = false) : trim s = s :=
  trim_eq_self_iff.mpr
    ⟨fun c hc => h c (List.mem_of_head? hc), fun c hc => h c (List.mem_of_getLast? hc)⟩

@[simp] theorem trim_trim (s : Text) : trim (trim s) = trim s := strip_strip s

@[simp] theorem trim_nil : trim [] = [] := rfl

theorem trim_isInfix (s : Text) : trim s <:+: s := strip_isInfix s

theorem mem_of_mem_trim {s : Text} {c : Char} (h : c ∈ trim s) : c ∈ s :=
  (trim_isInfix s).subset h

@[simp] theorem blank_trim (s : Text) : blank (trim s) = blank s := by
  rw [Bool.eq_iff_iff, ← trim_eq_nil_iff, ← trim_eq_nil_iff, trim_trim]

theorem blank_eq_false_of_trimmed {s : Text} (h : trim s = s) (hne : s ≠ []) :
    blank s = false := by
  by_contra hb
  exact hne (h ▸ trim_eq_nil_iff.mpr (by simpa using hb))

/-- Of two beginnings of one text, each before a character that is not blank, one is the trim of
the other only when they are the same. -/
theorem eq_of_trim_eq {t u r v : Text} {c d : Char} (hc : isBlank c = false)
    (hsame : u ++ d :: r = t ++ c :: v) (htrim : trim u = t) : u = t := by
  have hlen : t.length ≤ u.length := htrim ▸ (trim_isInfix u).length_le
  rcases List.append_eq_append_iff.mp hsame with ⟨w, hw, -⟩ | ⟨w, hu, hv⟩
  · -- `u` is the shorter one
    have hwnil : w = [] := by
      have := congrArg List.length hw
      rw [List.length_append] at this
      exact List.length_eq_zero_iff.mp (by omega)
    simpa [hwnil] using hw.symm
  · -- `u` goes on after `t`, so it goes on with `c`, and then its trim is longer than `t`
    cases w with
    | nil => simpa using hu
    | cons e w =>
      exfalso
      obtain rfl : c = e := by simpa using (List.cons.inj hv).1
      obtain ⟨a, b, ha, hb, hs⟩ := exists_eq_trim u
      rw [htrim] at hs
      have happ : a ++ (t ++ b) = t ++ c :: w := by rw [← List.append_assoc, ← hs, hu]
      -- the last character of `u` that is not blank lies beyond `t`
      have hcount : (a ++ (t ++ b)).countP (!isBlank ·) = (t ++ c :: w).countP (!isBlank ·) := by
        rw [happ]
      have hzero : ∀ x : Text, blank x = true → x.countP (!isBlank ·) = 0 := by
        intro x hx
        rw [List.countP_eq_zero]
        intro y hy
        simp [blank_iff.mp hx y hy]
      simp only [List.countP_append, List.countP_cons, hzero a ha, hzero b hb, hc] at hcount
      simp at hcount

end Text

/-! ## Names -/

namespace Text

/-- The code points of the blank characters. -/
def blankCodes : List Nat :=
  [0x09, 0x0A, 0x0B, 0x0C, 0x0D, 0x20, 0x85, 0xA0, 0x1680, 0x2000, 0x2001, 0x2002, 0x2003, 0x2004,
    0x2005, 0x2006, 0x2007, 0x2008, 0x2009, 0x200A, 0x2028, 0x2029, 0x202F, 0x205F, 0x3000]

/-- What holds of every blank character can be checked for each of them. -/
theorem forall_isBlank {P : Char → Prop} (h : ∀ n ∈ blankCodes, P (Char.ofNat n)) {c : Char}
    (hc : isBlank c = true) : P c := by
  have hcode : c.toNat ∈ blankCodes := by
    simp only [isBlank, Bool.or_eq_true, Bool.and_eq_true, decide_eq_true_eq, beq_iff_eq] at hc
    simp only [blankCodes, List.mem_cons, List.not_mem_nil, or_false]
    omega
  have := h _ hcode
  rwa [Char.ofNat_toNat] at this

theorem isAlphanumeric_eq_false_of_isBlank {c : Char} (h : isBlank c = true) :
    isAlphanumeric c = false :=
  forall_isBlank (P := fun c => isAlphanumeric c = false) (by decide) h

end Text

namespace Field

theorem not_isBlank_of_isNameChar {c : Char} (h : isNameChar c = true) :
    Text.isBlank c = false := by
  by_contra hb
  have hblank : Text.isBlank c = true := by simpa using hb
  simp only [isNameChar, Text.isAlphanumeric_eq_false_of_isBlank hblank, Bool.false_or,
    Bool.or_eq_true, beq_iff_eq] at h
  rcases h with rfl | rfl <;> exact absurd hblank (by decide)

end Field

end ApiDocs
