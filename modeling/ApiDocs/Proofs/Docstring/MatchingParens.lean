import ApiDocs.Proofs.Docstring.TypeSyntax

/-!
# Where a parenthesis closes

A parenthesis is open before a text. It is closed by the first closing one in front of which there
are as many opening as closing ones. So what stands inside has parentheses that match, and nothing
is lost by trimming it: blanks are no parentheses. Hence a type that was found in parentheses behind
the name of a parameter is found there again, however the line was spaced.

* `Field.ParensMatch`, `Field.MatchingParen`: texts whose parentheses match, and the parenthesis
  that closes.
* `Field.cutAtParen?_cases`: a text either stays open or is cut where nothing is open any more.
* `Field.ParensMatch.trim`: what trimming leaves as it is.
* `Field.paramHead?_of_paren`: the parts of a line with a type in parentheses.
* `Field.closeParen?_at_matching_paren`: where a parenthesis closes, and that types are found again.
-/

namespace ApiDocs

namespace Field

/-! ## Parentheses that match -/

/-- Texts with as many opening as closing parentheses, no part from the start having more closing
than opening ones. -/
structure ParensMatch (s : Text) : Prop where
  equal : s.count '(' = s.count ')'
  nested : ∀ u, u <+: s → u.count ')' ≤ u.count '('

/-- The parenthesis that closes the one before a text, between what is inside and what comes
after. -/
structure MatchingParen (t inside after : Text) : Prop where
  parts : t = inside ++ ')' :: after
  matched : ParensMatch inside

/-- How many parentheses are open after a text, one being open before it. -/
def openParens (u : Text) : Int := 1 + u.count '(' - u.count ')'

theorem parensMatch_iff {s : Text} :
    ParensMatch s ↔ StaysOpen 0 s ∧ s.count ')' = 0 + s.count '(' := by
  simp only [StaysOpen, Nat.zero_add]
  exact ⟨fun h => ⟨h.nested, h.equal.symm⟩, fun h => ⟨h.2.symm, h.1⟩⟩

/-! ## Where a text is cut -/

theorem exists_add_count_eq {depth : Nat} {c : Char} (h : ¬ (c = ')' ∧ depth = 0)) :
    ∃ d, d + [c].count ')' = depth + [c].count '(' := by
  by_cases hc : c = ')'
  · obtain ⟨d, rfl⟩ := Nat.exists_eq_succ_of_ne_zero fun hzero => h ⟨hc, hzero⟩
    exact ⟨d, by simp [hc]⟩
  · exact ⟨depth + [c].count '(', by simp [hc]⟩

/-- The scan either reaches the end of a text that stays open, or stops at the parenthesis behind
such a text that closes the last open one. -/
theorem cutAtParen?_cases (depth : Nat) (s : Text) :
    (cutAtParen? depth s = none ∧ StaysOpen depth s) ∨
      ∃ a b, cutAtParen? depth s = some (a, b) ∧ s = a ++ ')' :: b ∧ StaysOpen depth a ∧
        a.count ')' = depth + a.count '(' := by
  induction s generalizing depth with
  | nil => exact .inl ⟨rfl, by simp [StaysOpen]⟩
  | cons c s ih =>
    by_cases hstop : c = ')' ∧ depth = 0
    · obtain ⟨rfl, rfl⟩ := hstop
      exact .inr ⟨[], s, rfl, rfl, by simp [StaysOpen], rfl⟩
    · -- unless `c` closes the last open parenthesis, there is a depth behind it to go on with
      obtain ⟨d, hd⟩ := exists_add_count_eq hstop
      rw [cutAtParen?_cons hd]
      rcases ih d with ⟨hnone, hopen⟩ | ⟨a, b, hsome, rfl, hopen, hend⟩
      · exact .inl ⟨by rw [hnone, Option.map_none], (staysOpen_cons_iff hd).mpr hopen⟩
      · refine .inr ⟨c :: a, b, by rw [hsome, Option.map_some], rfl, ?_, ?_⟩
        · exact (staysOpen_cons_iff hd).mpr hopen
        · rw [count_cons_eq ')' c a, count_cons_eq '(' c a]
          omega

theorem staysOpen_of_closeParen? {s : Text} (h : closeParen? s = none) : StaysOpen 0 s := by
  rcases cutAtParen?_cases 0 s with ⟨-, hopen⟩ | ⟨a, b, hsome, -⟩
  · exact hopen
  · cases h.symm.trans hsome

theorem closeParen?_eq_some_iff {t inside after : Text} :
    closeParen? t = some (inside, after) ↔ MatchingParen t inside after := by
  constructor
  · intro h
    rcases cutAtParen?_cases 0 t with ⟨hnone, -⟩ | ⟨a, b, hsome, hparts, hopen⟩
    · cases h.symm.trans hnone
    · cases h.symm.trans hsome
      exact ⟨hparts, parensMatch_iff.mpr hopen⟩
  · rintro ⟨rfl, hmatched⟩
    obtain ⟨hopen, hend⟩ := parensMatch_iff.mp hmatched
    exact cutAtParen?_of_balanced hopen hend after

theorem closeParen?_eq_none_iff {t : Text} :
    closeParen? t = none ↔ ∀ inside after, ¬ MatchingParen t inside after := by
  rw [Option.eq_none_iff_forall_ne_some]
  constructor
  · intro h inside after hmatch
    exact h (inside, after) (closeParen?_eq_some_iff.mpr hmatch)
  · rintro h ⟨inside, after⟩ hsome
    exact h inside after (closeParen?_eq_some_iff.mp hsome)

/-! ## The depth of the scan -/

/-- As long as nothing is closed, the depth at which the scan goes on is what is still open. -/
theorem exists_depth_of_closeParen? {u : Text} (h : closeParen? u = none) :
    ∃ depth : Nat, openParens u = depth + 1 ∧
      ∀ v, closeParen? (u ++ v) = (cutAtParen? depth v).map fun x => (u ++ x.1, x.2) := by
  have hopen := staysOpen_of_closeParen? h
  have hle : u.count ')' ≤ u.count '(' := by simpa using hopen u List.prefix_rfl
  refine ⟨u.count '(' - u.count ')', ?_, fun v => ?_⟩
  · rw [openParens]
    omega
  · exact cutAtParen?_append_of_staysOpen hopen (by omega) v

theorem MatchingParen.openParens_eq_zero {t inside after : Text}
    (h : MatchingParen t inside after) : openParens (inside ++ ")".toList) = 0 := by
  have hopening : (inside ++ ")".toList).count '(' = inside.count '(' := by simp
  have hclosing : (inside ++ ")".toList).count ')' = inside.count ')' + 1 := by simp
  rw [openParens, hopening, hclosing, h.matched.equal]
  omega

/-! ## Trimming -/

theorem count_of_blank {x : Char} (hx : Text.isBlank x = false) {s : Text}
    (hs : Text.blank s = true) : s.count x = 0 := by
  refine List.count_eq_zero_of_not_mem fun hmem => ?_
  rw [Text.blank_iff.mp hs x hmem] at hx
  cases hx

theorem ParensMatch.trim {s : Text} (h : ParensMatch s) : ParensMatch (Text.trim s) := by
  -- the blanks that are trimmed away count for nothing, neither in the text nor in its first parts
  obtain ⟨front, back, hfront, hback, hs⟩ := Text.exists_eq_trim s
  have hcount : ∀ x, Text.isBlank x = false → s.count x = (Text.trim s).count x := by
    intro x hx
    conv_lhs => rw [hs]
    simp [count_of_blank hx hfront, count_of_blank hx hback]
  constructor
  · rw [← hcount '(' (by decide), ← hcount ')' (by decide)]
    exact h.equal
  · intro u hu
    have hprefix : front ++ u <+: s := by
      rw [hs, List.append_assoc]
      exact (List.prefix_append_right_inj front).mpr (hu.trans (List.prefix_append _ back))
    have hnested := h.nested _ hprefix
    rw [List.count_append, List.count_append, count_of_blank (by decide) hfront,
      count_of_blank (by decide) hfront] at hnested
    omega

/-! ## Types in parentheses -/

/-- A line with a name, a type in parentheses and a description, and what it declares. -/
structure TypedLine (s : Text) (h : Head) (gap inside after : Text) : Prop where
  parts : s = h.name ++ gap ++ '(' :: (inside ++ ')' :: after)
  gap_blank : Text.blank gap = true
  matched : ParensMatch inside
  typeName : h.typeName = Text.trim inside
  description : tailDescription? after = some h.description

/-- A line in which a parenthesis opens behind the name is read up to where it closes. -/
theorem paramHead?_of_paren {s inner : Text} {h : Head}
    (hopen : Text.trimStart (s.dropWhile isNameChar) = '(' :: inner) (hs : paramHead? s = some h) :
    ∃ gap inside after, inner = inside ++ ')' :: after ∧ TypedLine s h gap inside after := by
  have hparts : s = s.takeWhile isNameChar ++ (s.dropWhile isNameChar).takeWhile Text.isBlank ++
      '(' :: inner := by
    rw [← hopen, Text.trimStart, List.append_assoc, List.takeWhile_append_dropWhile,
      List.takeWhile_append_dropWhile]
  have hgap : Text.blank ((s.dropWhile isNameChar).takeWhile Text.isBlank) = true :=
    Text.blank_iff.mpr fun c hc => List.mem_takeWhile_imp hc
  simp only [paramHead?, hopen] at hs
  split at hs
  · cases hs
  · simp only [Option.bind_eq_bind, Option.bind_eq_some_iff] at hs
    obtain ⟨⟨inside, after⟩, hclose, description, hdescription, heq⟩ := hs
    cases heq
    obtain ⟨rfl, hmatched⟩ := closeParen?_eq_some_iff.mp hclose
    exact ⟨_, inside, after, rfl, ⟨hparts, hgap, hmatched, rfl, hdescription⟩⟩

/-- A head whose type has parentheses that match is read back from its own parts. -/
theorem paramHead?_reread {s : Text} {h : Head} (hs : paramHead? s = some h)
    (hmatched : ParensMatch h.typeName) :
    paramHead? (h.name ++ " (".toList ++ h.typeName ++ "): ".toList ++ h.description) = some h := by
  obtain ⟨hname, hchars, htype, hdescription, -⟩ := paramHead?_spec hs
  have hclose : closeParen? (h.typeName ++ ")".toList) = some (h.typeName, []) :=
    closeParen?_eq_some_iff.mpr ⟨rfl, hmatched⟩
  have hline : h.name ++ " (".toList ++ h.typeName ++ "): ".toList ++ h.description =
      h.name ++ " (".toList ++ h.typeName ++ "):".toList ++ ' ' :: h.description := by simp
  rw [hline, paramHead?_typed hname hchars htype hclose, Text.trim_cons_blank Text.isBlank_space,
    hdescription]

/-- **A parenthesis closes exactly where nothing inside is left open.** The one before a text is
closed by a closing one with matching parentheses in front of it, and by none if and only if there
is no such one. As long as it is not closed, the depth at which the text is scanned is the number of
parentheses that are open, which is at least one; it is zero where the parenthesis closes. Hence, in
a line with a parenthesis behind the name of a parameter, the type is what stands in front of its
matching parenthesis. Its own parentheses match, and name, type and description are found again if
they are written as `name (type): description`, also where there is no type. -/
theorem closeParen?_at_matching_paren (t : Text) :
    (∀ inside after, closeParen? t = some (inside, after) ↔ MatchingParen t inside after) ∧
      (closeParen? t = none ↔ ∀ inside after, ¬ MatchingParen t inside after) ∧
      (∀ u v, t = u ++ v → closeParen? u = none →
        ∃ depth : Nat, openParens u = depth + 1 ∧
          closeParen? t = (cutAtParen? depth v).map fun x => (u ++ x.1, x.2)) ∧
      (∀ inside after, closeParen? t = some (inside, after) →
        openParens (inside ++ ")".toList) = 0) ∧
      ∀ inner h, Text.trimStart (t.dropWhile isNameChar) = '(' :: inner →
        paramHead? t = some h →
        (∃ gap inside after, inner = inside ++ ')' :: after ∧ TypedLine t h gap inside after) ∧
          ParensMatch h.typeName ∧
          paramHead? (h.name ++ " (".toList ++ h.typeName ++ "): ".toList ++ h.description) =
            some h := by
  refine ⟨fun inside after => closeParen?_eq_some_iff, closeParen?_eq_none_iff, ?_, ?_, ?_⟩
  · rintro u v rfl hu
    obtain ⟨depth, hdepth, hscan⟩ := exists_depth_of_closeParen? hu
    exact ⟨depth, hdepth, hscan v⟩
  · intro inside after hsome
    exact (closeParen?_eq_some_iff.mp hsome).openParens_eq_zero
  · intro inner h hopen hs
    obtain ⟨gap, inside, after, hinner, hline⟩ := paramHead?_of_paren hopen hs
    have hmatched : ParensMatch h.typeName := hline.typeName ▸ hline.matched.trim
    exact ⟨⟨gap, inside, after, hinner, hline⟩, hmatched, paramHead?_reread hs hmatched⟩

/-- A type with parentheses of its own, blanks on both sides of it, and a closing parenthesis too
many in the description. -/
theorem closeParen?_at_matching_paren_nested :
    let t := "key( f[(int), (str)] ) :  a) b (or c ".toList
    let inner := " f[(int), (str)] ) :  a) b (or c ".toList
    let inside := " f[(int), (str)] ".toList
    let h : Head := ⟨"key".toList, "f[(int), (str)]".toList, "a) b (or c".toList⟩
    closeParen? inner = some (inside, " :  a) b (or c ".toList) ∧
      openParens (inside ++ ")".toList) = 0 ∧
      Text.trimStart (t.dropWhile isNameChar) = '(' :: inner ∧ paramHead? t = some h ∧
      ParensMatch h.typeName ∧
      paramHead? (h.name ++ " (".toList ++ h.typeName ++ "): ".toList ++ h.description) =
        some h := by
  intro t inner inside h
  have hclose : closeParen? inner = some (inside, " :  a) b (or c ".toList) := by decide
  have hopen : Text.trimStart (t.dropWhile isNameChar) = '(' :: inner := by decide
  have hs : paramHead? t = some h := by decide
  obtain ⟨-, -, -, hend, -⟩ := closeParen?_at_matching_paren inner
  obtain ⟨-, -, -, -, htyped⟩ := closeParen?_at_matching_paren t
  obtain ⟨-, hmatched, hagain⟩ := htyped inner h hopen hs
  exact ⟨hclose, hend _ _ hclose, hopen, hs, hmatched, hagain⟩

end Field

end ApiDocs
