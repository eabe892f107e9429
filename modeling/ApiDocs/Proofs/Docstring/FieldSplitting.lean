import ApiDocs.Proofs.Docstring.UnionTypes

/-!
# Where a field is split

A field is split at its first colon outside brackets. An opening bracket of any kind raises the
depth and a closing one lowers it, but not below zero; so a closing bracket without an opening one
hides nothing, and an opening one without a closing one hides all colons behind it. Blanks have no
part in this, and what stands before the colon is found again when the two sides are put together
once more, trimmed as they are.

* `Field.bracketDepth`, `Field.OuterColon`, `Field.FirstOuterColon`: colons outside brackets.
* `Field.cutAtColon?_eq_some_iff`, `Field.cutAtColon?_eq_none_iff`: where a text is cut.
* `Field.FirstOuterColon.split?_trim`: what trimming leaves as it is.
* `Field.split?_at_first_colon`: where a field is split, and that it is split there again.
-/

namespace ApiDocs

namespace Field

/-! ## Colons outside brackets -/

/-- Bracket depth after a text. -/
def bracketDepth (s : Text) : Nat :=
  s.foldl (fun depth c =>
    if c ∈ brackets.map (·.1) then depth + 1
    else if c ∈ brackets.map (·.2) then depth - 1
    else depth) 0

/-- A colon outside brackets, between the text before and the text after it. -/
structure OuterColon (t before after : Text) : Prop where
  parts : t = before ++ ':' :: after
  outside : bracketDepth before = 0

/-- The first colon outside brackets. -/
structure FirstOuterColon (t before after : Text) : Prop extends OuterColon t before after where
  first : ∀ u v, ¬ OuterColon before u v

theorem bracketDepth_eq (s : Text) : bracketDepth s = depthOver 0 s := by
  have hstep : (fun (depth : Nat) (c : Char) =>
      if c ∈ brackets.map (·.1) then depth + 1
      else if c ∈ brackets.map (·.2) then depth - 1
      else depth) = depthAfter := by
    funext depth c
    have hopening : c ∈ brackets.map (·.1) ↔ isOpening c = true := by
      simp [brackets, isOpening, or_assoc]
    have hclosing : c ∈ brackets.map (·.2) ↔ isClosing c = true := by
      simp [brackets, isClosing, or_assoc]
    simp only [hopening, hclosing]
    rfl
  rw [bracketDepth, hstep, depthOver]

theorem colonFree_iff_forall {s : Text} : ColonFree 0 s ↔ ∀ u v, ¬ OuterColon s u v := by
  constructor
  · rintro h u v ⟨hparts, houtside⟩
    rw [bracketDepth_eq] at houtside
    exact h u v hparts houtside
  · intro h u v hparts houtside
    rw [← bracketDepth_eq] at houtside
    exact h u v ⟨hparts, houtside⟩

/-! ## Where a text is cut -/

theorem cutAtColon?_eq_none_iff {depth : Nat} {s : Text} :
    cutAtColon? depth s = none ↔ ColonFree depth s := by
  constructor
  · intro h
    fun_induction cutAtColon? depth s with
    | case1 depth => exact colonFree_iff.mpr (avoids_nil _ depth)
    | case2 depth c s hc => cases h
    | case3 depth c s hc ih =>
      rw [Option.map_eq_none_iff] at h
      exact colonFree_cons_iff.mpr ⟨by simpa using hc, ih h⟩
  · exact cutAtColon?_eq_none_of_colonFree

theorem cutAtColon?_eq_some_iff {depth : Nat} {s a b : Text} :
    cutAtColon? depth s = some (a, b) ↔
      s = a ++ ':' :: b ∧ depthOver depth a = 0 ∧ ColonFree depth a := by
  constructor
  · intro h
    refine ⟨eq_of_cutAtColon? h, ?_⟩
    -- each character in front of the colon has been passed over at its depth
    fun_induction cutAtColon? depth s generalizing a with
    | case1 => cases h
    | case2 depth c s hc =>
      cases h
      obtain ⟨-, rfl⟩ : c = ':' ∧ depth = 0 := by simpa using hc
      exact ⟨rfl, colonFree_iff.mpr (avoids_nil _ 0)⟩
    | case3 depth c s hc ih =>
      obtain ⟨⟨a', b'⟩, hcut, heq⟩ := Option.map_eq_some_iff.mp h
      cases heq
      obtain ⟨hdepth, hfree⟩ := ih hcut
      exact ⟨hdepth, colonFree_cons_iff.mpr ⟨by simpa using hc, hfree⟩⟩
  · rintro ⟨rfl, hdepth, hfree⟩
    rw [cutAtColon?_append_of_colonFree hfree, hdepth]
    simp [cutAtColon?]

theorem cutAtColon?_zero_iff {t before after : Text} :
    cutAtColon? 0 t = some (before, after) ↔ FirstOuterColon t before after := by
  rw [cutAtColon?_eq_some_iff, colonFree_iff_forall, ← bracketDepth_eq]
  constructor
  · rintro ⟨hparts, houtside, hfirst⟩
    exact ⟨⟨hparts, houtside⟩, hfirst⟩
  · intro h
    exact ⟨h.parts, h.outside, h.first⟩

/-! ## Trimming -/

theorem isSmooth_of_isBlank {c : Char} (h : Text.isBlank c = true) : isSmooth c = true :=
  Text.forall_isBlank (P := fun c => isSmooth c = true) (by decide) h

/-- Blanks at the ends of a text change neither its depth nor its colons outside brackets. -/
theorem colonFree_trim {s : Text} (hfree : ColonFree 0 s) (hclosed : depthOver 0 s = 0) :
    ColonFree 0 (Text.trim s) ∧ depthOver 0 (Text.trim s) = 0 := by
  obtain ⟨front, back, hfront, hback, hs⟩ := Text.exists_eq_trim s
  have hblank : ∀ t, Text.blank t = true → ∀ depth, depthOver depth t = depth := by
    intro t ht depth
    have hsmooth : ∀ c ∈ t, isSmooth c = true :=
      fun c hc => isSmooth_of_isBlank (Text.blank_iff.mp ht c hc)
    exact (colonFree_of_smooth hsmooth depth).2
  constructor
  · intro u v huv
    have hsame : s = front ++ u ++ ':' :: (v ++ back) := by
      rw [hs, huv]
      simp
    have hdepth := hfree (front ++ u) (v ++ back) hsame
    rwa [depthOver_append, hblank front hfront] at hdepth
  · rw [hs, depthOver_append, depthOver_append, hblank front hfront, hblank back hback] at hclosed
    exact hclosed

/-- What stands before the first colon outside brackets can stand there trimmed. -/
theorem FirstOuterColon.split?_trim {t before after : Text} (h : FirstOuterColon t before after)
    (rest : Text) : split? (Text.trim before ++ ':' :: rest) =
      some (Text.trim before, Text.trim rest) := by
  have hfree : ColonFree 0 before := colonFree_iff_forall.mpr h.first
  have hclosed : depthOver 0 before = 0 := bracketDepth_eq before ▸ h.outside
  obtain ⟨htrimFree, htrimClosed⟩ := colonFree_trim hfree hclosed
  rw [split?_of_colonFree htrimFree htrimClosed, Text.trim_trim]

/-! ## Fields -/

theorem split?_eq_none_iff {t : Text} :
    split? t = none ↔ ∀ before after, ¬ OuterColon t before after := by
  rw [split?, Option.map_eq_none_iff, cutAtColon?_eq_none_iff, colonFree_iff_forall]

theorem split?_eq_some_iff {t a b : Text} :
    split? t = some (a, b) ↔
      ∃ before after, FirstOuterColon t before after ∧ a = Text.trim before ∧
        b = Text.trim after := by
  constructor
  · intro h
    obtain ⟨before, after, hcut, -, rfl, rfl⟩ := split?_eq_some h
    exact ⟨before, after, cutAtColon?_zero_iff.mp hcut, rfl, rfl⟩
  · rintro ⟨before, after, hfirst, rfl, rfl⟩
    rw [split?, cutAtColon?_zero_iff.mpr hfirst]
    rfl

/-- **A field is split exactly at its first colon outside brackets, and there again.** A text is
not split if and only if it has no such colon; otherwise its parts are the trimmed texts before and
after the first one. The part before it has no such colon itself. Put together again with
a colon and a space, the parts are found again, and the first part is found before a colon with
nothing behind it. -/
theorem split?_at_first_colon (t : Text) :
    (split? t = none ↔ ∀ before after, ¬ OuterColon t before after) ∧
      (∀ a b, split? t = some (a, b) ↔
        ∃ before after, FirstOuterColon t before after ∧ a = Text.trim before ∧
          b = Text.trim after) ∧
      ∀ a b, split? t = some (a, b) →
        (∀ u v, ¬ OuterColon a u v) ∧ split? (a ++ ": ".toList ++ b) = some (a, b) ∧
          split? (a ++ ":".toList) = some (a, []) := by
  refine ⟨split?_eq_none_iff, fun a b => split?_eq_some_iff, ?_⟩
  intro a b h
  obtain ⟨before, after, hfirst, rfl, rfl⟩ := split?_eq_some_iff.mp h
  refine ⟨?_, ?_, hfirst.split?_trim []⟩
  · rw [← colonFree_iff_forall]
    exact (colonFree_trim (colonFree_iff_forall.mpr hfirst.first)
      (bracketDepth_eq before ▸ hfirst.outside)).1
  · have hjoined : Text.trim before ++ ": ".toList ++ Text.trim after =
        Text.trim before ++ ':' :: ' ' :: Text.trim after := by simp
    rw [hjoined, hfirst.split?_trim, Text.trim_cons_blank Text.isBlank_space, Text.trim_trim]

/-- A closing bracket too many, a colon inside brackets, and an opening bracket behind the colon
that is never closed. -/
theorem split?_at_first_colon_stray :
    let t := " x) dict[str: int] : the (first: one ".toList
    let a := "x) dict[str: int]".toList
    let b := "the (first: one".toList
    split? t = some (a, b) ∧ (∀ u v, ¬ OuterColon a u v) ∧
      split? (a ++ ": ".toList ++ b) = some (a, b) ∧ split? (a ++ ":".toList) = some (a, []) := by
  intro t a b
  have hsplit : split? t = some (a, b) := by decide
  exact ⟨hsplit, (split?_at_first_colon t).2.2 a b hsplit⟩

end Field

end ApiDocs
