import ApiDocs.Text.Basic

/-!
# Texts that are cut in two

A text is cut at the first or at the last character of a kind. The parts and that character make up
the text, and the character is found where the text says it is.

* `Text.cutAtFirst?_eq_some`, `Text.cutAtLast?_eq_some`: the parts of a text that is cut.
* `Text.cutAtFirst?_append`, `Text.cutAtLast?_append`: a text that is put together from its parts.
-/

namespace ApiDocs

namespace Text

/-! ## At the first character -/

theorem cutAtFirst?_eq_some {p : Char → Bool} {s a b : Text}
    (h : cutAtFirst? p s = some (a, b)) : ∃ c, s = a ++ c :: b ∧ p c = true := by
  fun_induction cutAtFirst? p s generalizing a with
  | case1 => cases h
  | case2 c cs hc =>
    cases h
    exact ⟨c, rfl, hc⟩
  | case3 c cs _ ih =>
    obtain ⟨⟨a', b'⟩, hcut, heq⟩ := Option.map_eq_some_iff.mp h
    cases heq
    obtain ⟨d, rfl, hd⟩ := ih hcut
    exact ⟨d, rfl, hd⟩

theorem cutAtFirst?_eq_none {p : Char → Bool} {s : Text} (h : cutAtFirst? p s = none) :
    ∀ c ∈ s, p c = false := by
  fun_induction cutAtFirst? p s with
  | case1 => simp
  | case2 c cs hc => cases h
  | case3 c cs hc ih =>
    intro d hd
    rcases List.mem_cons.mp hd with rfl | hd
    · simpa using hc
    · exact ih (by simpa using h) d hd

theorem cutAtFirst?_append {p : Char → Bool} {s : Text} (hs : ∀ c ∈ s, p c = false) {c : Char}
    (hc : p c = true) (t : Text) : cutAtFirst? p (s ++ c :: t) = some (s, t) := by
  induction s with
  | nil => simp [cutAtFirst?, hc]
  | cons d s ih =>
    simp [cutAtFirst?, hs d List.mem_cons_self, ih fun x hx => hs x (List.mem_cons_of_mem _ hx)]

/-! ## At the last character -/

theorem cutAtLast?_eq_none {p : Char → Bool} {s : Text} (h : cutAtLast? p s = none) :
    ∀ c ∈ s, p c = false := by
  fun_induction cutAtLast? p s with
  | case1 => simp
  | case2 c cs a b hcut ih => cases h
  | case3 c cs hcut hc ih => cases h
  | case4 c cs hcut hc ih =>
    intro d hd
    rcases List.mem_cons.mp hd with rfl | hd
    · simpa using hc
    · exact ih hcut d hd

theorem cutAtLast?_eq_some {p : Char → Bool} {s a b : Text} (h : cutAtLast? p s = some (a, b)) :
    ∃ c, s = a ++ c :: b ∧ p c = true ∧ ∀ d ∈ b, p d = false := by
  fun_induction cutAtLast? p s generalizing a b with
  | case1 => cases h
  | case2 c cs a' b' hcut ih =>
    cases h
    obtain ⟨d, rfl, hd⟩ := ih hcut
    exact ⟨d, rfl, hd⟩
  | case3 c cs hcut hc ih =>
    cases h
    exact ⟨c, rfl, hc, cutAtLast?_eq_none hcut⟩
  | case4 c cs hcut hc ih => cases h

theorem cutAtLast?_of_forall {p : Char → Bool} {s : Text} (hs : ∀ c ∈ s, p c = false) :
    cutAtLast? p s = none := by
  induction s with
  | nil => rfl
  | cons d s ih =>
    simp [cutAtLast?, hs d List.mem_cons_self, ih fun x hx => hs x (List.mem_cons_of_mem _ hx)]

theorem cutAtLast?_append {p : Char → Bool} {t : Text} (ht : ∀ c ∈ t, p c = false) {c : Char}
    (hc : p c = true) (s : Text) : cutAtLast? p (s ++ c :: t) = some (s, t) := by
  induction s with
  | nil => simp [cutAtLast?, cutAtLast?_of_forall ht, hc]
  | cons d s ih => simp [cutAtLast?, ih]

end Text

end ApiDocs
