import ApiDocs.Proofs.Docstring.ExampleCode

/-!
# The kind of a line between its neighbours

Lines are classified from the top, and a header that is underlined takes its underline with it.
What a line becomes still depends on that line and its two neighbours alone: whether it is the
underline of the line above, or else what it says by itself, or else whether it is a section word
that the line below underlines. An underline is no section word, so no line is both.

* `Line.KindBetween`: the kind of a line, by the line above, the line and the line below.
* `Line.classified_classify`: what one step does, for each line that it uses up.
* `Line.kind_ofText_iff`: each line of a text has the kind that its neighbours give it.
-/

namespace ApiDocs

namespace Line

/-! ## The kind of a line, by its neighbours -/

/-- Three or more dashes, or three or more equals signs. -/
def IsRule (s : Text) : Prop :=
  ∃ n, 3 ≤ n ∧ (Text.trim s = List.replicate n '-' ∨ Text.trim s = List.replicate n '=')

/-- Whether a line is the underline of the line above it. -/
def Underlines (above : Option Text) (s : Text) : Prop :=
  (∃ w ∈ above, (Section.ofWord? (Text.trim w)).isSome = true) ∧ IsRule s

/-- Whether a line is the header of a section: alone, or with the line below it as underline. -/
def Heads (s : Text) (below : Option Text) (k : Section) : Prop :=
  colonHeader? s = some k ∨ Section.ofWord? (Text.trim s) = some k ∧ ∃ u ∈ below, IsRule u

/-- The kind of a line between its neighbours. An earlier rule goes before a later one. -/
inductive KindBetween (above : Option Text) (s : Text) (below : Option Text) : LineKind → Prop
  | underline (marks : Underlines above s) : KindBetween above s below .underline
  | blank (unmarked : ¬ Underlines above s) (empty : Text.trim s = []) :
    KindBetween above s below .blank
  | header {k : Section} (unmarked : ¬ Underlines above s) (solid : Text.trim s ≠ [])
    (heads : Heads s below k) : KindBetween above s below (.header k)
  | field {k : Section} (unmarked : ¬ Underlines above s) (solid : Text.trim s ≠ [])
    (headless : ∀ j, ¬ Heads s below j) (declares : fieldSection? s = some k) :
    KindBetween above s below (.field k)
  | text (unmarked : ¬ Underlines above s) (solid : Text.trim s ≠ [])
    (headless : ∀ j, ¬ Heads s below j) (free : fieldSection? s = none) :
    KindBetween above s below .text

theorem isUnderline_iff {s : Text} : isUnderline s = true ↔ IsRule s := by
  simp only [isUnderline, Bool.and_eq_true, Bool.or_eq_true, List.all_eq_true, beq_iff_eq,
    decide_eq_true_eq, IsRule, List.eq_replicate_iff]
  constructor
  · rintro ⟨hlen, hall⟩
    exact ⟨_, hlen, hall.imp (⟨rfl, ·⟩) (⟨rfl, ·⟩)⟩
  · rintro ⟨n, hn, ⟨hlen, hall⟩ | ⟨hlen, hall⟩⟩
    · exact ⟨hlen ▸ hn, .inl hall⟩
    · exact ⟨hlen ▸ hn, .inr hall⟩

theorem ownKind?_eq_none_iff {s : Text} : ownKind? s = none ↔
    Text.blank s = false ∧ colonHeader? s = none ∧ fieldSection? s = none := by
  unfold ownKind?
  cases Text.blank s with
  | true => simp
  | false => cases colonHeader? s <;> simp

theorem Heads.unique {s : Text} {below : Option Text} {j k : Section} (hj : Heads s below j)
    (hk : Heads s below k) : j = k := by
  -- a section word has no colon, so it is no header by itself
  have hword : ∀ {i l}, colonHeader? s = some i → Section.ofWord? (Text.trim s) ≠ some l := by
    intro i l hi hl
    have hnone := (ownKind?_eq_none_iff.mp (ownKind?_of_ofWord? hl)).2.1
    simp [hnone] at hi
  rcases hj with hj | ⟨hj, -⟩
  · rcases hk with hk | ⟨hk, -⟩
    · exact Option.some.inj (hj.symm.trans hk)
    · exact absurd hk (hword hj)
  · rcases hk with hk | ⟨hk, -⟩
    · exact absurd hj (hword hk)
    · exact Option.some.inj (hj.symm.trans hk)

namespace KindBetween

variable {above below : Option Text} {s : Text}

theorem unique {x y : LineKind} (hx : KindBetween above s below x)
    (hy : KindBetween above s below y) : x = y := by
  cases hx with
  | underline marks =>
    cases hy with
    | underline => rfl
    | blank | header | field | text => contradiction
  | blank unmarked empty =>
    cases hy with
    | blank => rfl
    | underline | header | field | text => contradiction
  | header unmarked solid heads =>
    cases hy with
    | underline | blank => contradiction
    | header _ _ heads' => rw [heads.unique heads']
    | field _ _ headless | text _ _ headless => exact absurd heads (headless _)
  | field unmarked solid headless declares =>
    cases hy with
    | underline | blank => contradiction
    | header _ _ heads => exact absurd heads (headless _)
    | field _ _ _ declares' => cases declares.symm.trans declares'; rfl
    | text _ _ _ free => cases declares.symm.trans free
  | text unmarked solid headless free =>
    cases hy with
    | underline | blank => contradiction
    | header _ _ heads => exact absurd heads (headless _)
    | field _ _ _ declares => cases free.symm.trans declares
    | text => rfl

/-- A line that is no underline has its own kind, if it has one. -/
theorem of_ownKind? (hmark : ¬ Underlines above s) {kind : LineKind}
    (h : ownKind? s = some kind) : KindBetween above s below kind := by
  have hword := ofWord?_eq_none_of_ownKind? h
  rcases ownKind?_cases s with ⟨hb, hk⟩ | ⟨hb, ⟨k, hc, hk⟩ | ⟨k, hf, hk⟩ | hk⟩
  · cases h.symm.trans hk
    exact .blank hmark (Text.trim_eq_nil_iff.mpr hb)
  · cases h.symm.trans hk
    exact .header hmark (by simp [Text.trim_eq_nil_iff, hb]) (.inl hc)
  · cases h.symm.trans hk
    refine .field hmark (by simp [Text.trim_eq_nil_iff, hb]) ?_ hf
    rintro j (hc | ⟨hj, -⟩)
    · simp [ownKind?, hb, hc] at hk
    · simp [hj] at hword
  · cases h.symm.trans hk

theorem of_text (hmark : ¬ Underlines above s) (h : ownKind? s = none)
    (hbelow : ∀ u ∈ below, (Section.ofWord? (Text.trim s)).isSome = true → ¬ IsRule u) :
    KindBetween above s below .text := by
  obtain ⟨hb, hc, hf⟩ := ownKind?_eq_none_iff.mp h
  refine .text hmark (by simp [Text.trim_eq_nil_iff, hb]) ?_ hf
  rintro j (hj | ⟨hj, u, hu, hrule⟩)
  · simp [hc] at hj
  · exact hbelow u hu (by simp [hj]) hrule

theorem of_underlined (hmark : ¬ Underlines above s) {k : Section}
    (h : Section.ofWord? (Text.trim s) = some k) {u : Text} (hu : IsRule u) :
    KindBetween above s (some u) (.header k) := by
  have hb := blank_eq_false_of_ownKind? (ownKind?_of_ofWord? h)
  exact .header hmark (by simp [Text.trim_eq_nil_iff, hb]) (.inr ⟨h, u, rfl, hu⟩)

end KindBetween

/-! ## All lines of a text -/

/-- Lines with the kinds that their neighbours give them, below the line `above`. -/
inductive Classified : Option Text → List Text → List Line → Prop
  | nil {above : Option Text} : Classified above [] []
  | cons {above : Option Text} {s : Text} {kind : LineKind} {rest : List Text} {ls : List Line}
    (first : KindBetween above s rest.head? kind) (more : Classified (some s) rest ls) :
    Classified above (s :: rest) (⟨s, kind⟩ :: ls)

/-- Classifying gives lines their kinds, as long as the first is not the underline of a line that
has been used up already. -/
theorem classified_classify {above : Option Text} {xs : List Text}
    (h : ∀ s, xs.head? = some s → ¬ Underlines above s) : Classified above xs (classify xs) := by
  fun_induction classify xs generalizing above with
  | case1 => exact .nil
  | case2 s =>
    have hmark := h s rfl
    refine .cons ?_ .nil
    cases hk : ownKind? s with
    | some kind => exact .of_ownKind? hmark hk
    | none => exact .of_text hmark hk (by simp)
  | case3 s next rest kind hk ih =>
    refine .cons (.of_ownKind? (h s rfl) hk) (ih ?_)
    -- a line that has a kind of its own is no section word
    rintro u - ⟨⟨w, hw, hword⟩, -⟩
    obtain rfl : s = w := by simpa using hw
    simp [ofWord?_eq_none_of_ownKind? hk] at hword
  | case4 s next rest k hnext hs _ ih =>
    have hrule := isUnderline_iff.mp hnext
    refine .cons (.of_underlined (h s rfl) hs hrule) (.cons (.underline ?_) (ih ?_))
    · exact ⟨⟨s, rfl, by simp [hs]⟩, hrule⟩
    · -- nor is an underline
      rintro u - ⟨⟨w, hw, hword⟩, -⟩
      obtain rfl : next = w := by simpa using hw
      simp [(of_isUnderline hnext).2] at hword
  | case5 s next rest hk hne ih =>
    have hapart : (Section.ofWord? (Text.trim s)).isSome = true → ¬ IsRule next := by
      intro hword hrule
      obtain ⟨k, hs⟩ := Option.isSome_iff_exists.mp hword
      exact hne k hs (isUnderline_iff.mpr hrule)
    refine .cons (.of_text (h s rfl) hk ?_) (ih ?_)
    · intro u hu
      obtain rfl : next = u := by simpa using hu
      exact hapart
    · rintro u hu ⟨⟨w, hw, hword⟩, hrule⟩
      obtain rfl : next = u := by simpa using hu
      obtain rfl : s = w := by simpa using hw
      exact hapart hword hrule

/-- The line above a line, where `first` stands above all. -/
def lineAbove (first : Option Text) (lines : List Text) : Nat → Option Text
  | 0 => first
  | i + 1 => lines[i]?

theorem Classified.getElem? {above : Option Text} {xs : List Text} {ls : List Line}
    (h : Classified above xs ls) {i : Nat} {s : Text} (hs : xs[i]? = some s) :
    ∃ kind, ls[i]? = some ⟨s, kind⟩ ∧
      KindBetween (lineAbove above xs i) s xs[i + 1]? kind := by
  induction h generalizing i with
  | nil => simp at hs
  | @cons above t kind rest ls first more ih =>
    cases i with
    | zero =>
      obtain rfl : t = s := by simpa using hs
      refine ⟨kind, rfl, ?_⟩
      rw [List.getElem?_cons_succ, ← List.head?_eq_getElem?]
      exact first
    | succ i =>
      obtain ⟨kind', hl, hkind⟩ := ih (by simpa using hs)
      refine ⟨kind', by simpa using hl, ?_⟩
      cases i <;> exact hkind

/-- **Each line of a text has the kind that its neighbours give it.** There is one line for each
part between line breaks, without the carriage return that may end it, and the kind of a line is
the one that follows from its text, the line above and the line below. -/
theorem kind_ofText_iff (s : Text) :
    (ofText s).length = (s.splitOn '\n').length ∧
      ∀ i part, (s.splitOn '\n')[i]? = some part →
        ∃ l, (ofText s)[i]? = some l ∧
          (part = l.text ∧ part.getLast? ≠ some '\r' ∨ part = l.text ++ ['\r']) ∧
          l.indent = (l.text.takeWhile Text.isBlank).length ∧
          ∀ kind, l.kind = kind ↔
            KindBetween (lineAbove none (split s) i) l.text (split s)[i + 1]? kind := by
  have hall : Classified none (split s) (ofText s) :=
    classified_classify (by rintro _ - ⟨⟨w, hw, -⟩, -⟩; cases hw)
  constructor
  · calc (ofText s).length = ((ofText s).map (·.text)).length := (List.length_map _).symm
      _ = (split s).length := by rw [ofText, map_text_classify]
      _ = (s.splitOn '\n').length := List.length_map _
  · intro i part hpart
    have hline : (split s)[i]? = some (dropReturn part) := by simp [split, hpart]
    obtain ⟨kind, hl, hkind⟩ := hall.getElem? hline
    refine ⟨_, hl, ?_, rfl, fun kind' => ⟨?_, ?_⟩⟩
    · rcases dropReturn_cases part with h | ⟨t, ht, h⟩
      · exact .inl ⟨h.symm, dropReturn_eq_self_iff.mp h⟩
      · exact .inr (by rw [h, ht])
    · rintro rfl
      exact hkind
    · exact hkind.unique

/-- The second of two underlines is text. -/
theorem kind_ofText_iff_twice :
    ("Returns\n---\r\n---".toList.splitOn '\n')[2]? = some "---".toList ∧
      ∃ l, (ofText "Returns\n---\r\n---".toList)[2]? = some l ∧ l.kind = .text ∧
        KindBetween (some "---".toList) l.text none .text := by
  have hpart : ("Returns\n---\r\n---".toList.splitOn '\n')[2]? = some "---".toList := by decide
  have hkind : (ofText "Returns\n---\r\n---".toList)[2]? = some ⟨"---".toList, .text⟩ := by decide
  obtain ⟨l, hl, -, -, hiff⟩ := (kind_ofText_iff "Returns\n---\r\n---".toList).2 2 _ hpart
  obtain rfl : ⟨"---".toList, .text⟩ = l := Option.some.inj (hkind.symm.trans hl)
  exact ⟨hpart, _, hl, rfl, (hiff .text).mp rfl⟩

end Line

end ApiDocs
