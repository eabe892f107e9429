import ApiDocs.Docstring.Item
import ApiDocs.Proofs.Text.Lines

/-!
# Heads of items, read and written

Where the head of an item is cut depends only on the text before the cut. So a head that is put
together from a name and a type is read back whatever description follows it, provided that the
type closes its own brackets and has no colon outside them.

* `Field.split?_append`: a type is found again before the colon that follows it.
* `Field.closeParen?_append_iff`: a type is found again inside its parentheses.
* `Field.paramHead?_spec`, `Field.errorHead?_spec`, `Item.returnedHead_spec`: the parts of a head
  stand in its line.
* `Field.paramHead?_untyped`, `Field.paramHead?_typed`: parameters that are read back.
* `Field.DelimitedType`: types that may be written in front of a colon; errors and return values
  with these types are read back, and only these.
-/

namespace ApiDocs

open scoped List

namespace Field

/-! ## Cutting at a colon -/

theorem eq_of_cutAtColon? {depth : Nat} {s a b : Text} (h : cutAtColon? depth s = some (a, b)) :
    s = a ++ ':' :: b := by
  fun_induction cutAtColon? depth s generalizing a with
  | case1 => cases h
  | case2 depth c cs hc =>
    cases h
    obtain ⟨rfl, -⟩ : c = ':' ∧ depth = 0 := by simpa using hc
    rfl
  | case3 depth c cs _ ih =>
    obtain ⟨⟨a', b'⟩, hcut, heq⟩ := Option.map_eq_some_iff.mp h
    cases heq
    rw [ih hcut, List.cons_append]

/-- Where a text is cut does not depend on what follows the colon. -/
theorem cutAtColon?_append {depth : Nat} {a b : Text}
    (h : cutAtColon? depth (a ++ ':' :: b) = some (a, b)) (b' : Text) :
    cutAtColon? depth (a ++ ':' :: b') = some (a, b') := by
  induction a generalizing depth with
  | nil =>
    cases depth with
    | zero => simp [cutAtColon?]
    | succ depth => simp [cutAtColon?] at h
  | cons c a ih =>
    rw [List.cons_append, cutAtColon?] at h ⊢
    split at h
    · simp at h
    · rename_i hc
      obtain ⟨⟨a', b''⟩, hcut, heq⟩ := Option.map_eq_some_iff.mp h
      cases heq
      rw [if_neg hc, ih hcut]
      rfl

theorem split?_eq_some {s t d : Text} (h : split? s = some (t, d)) :
    ∃ a b, cutAtColon? 0 s = some (a, b) ∧ s = a ++ ':' :: b ∧ Text.trim a = t ∧
      Text.trim b = d := by
  obtain ⟨⟨a, b⟩, hcut, heq⟩ := Option.map_eq_some_iff.mp h
  cases heq
  exact ⟨a, b, hcut, eq_of_cutAtColon? hcut, rfl, rfl⟩

/-- If a text is found before the colon that follows it, it was not cut short. -/
theorem cutAtColon?_of_split? {t rest d : Text} (h : split? (t ++ ':' :: rest) = some (t, d)) :
    cutAtColon? 0 (t ++ ':' :: rest) = some (t, rest) := by
  obtain ⟨a, b, hcut, hsame, ha, -⟩ := split?_eq_some h
  have hat : a = t := Text.eq_of_trim_eq (by decide) hsame.symm ha
  rw [hat] at hcut hsame
  obtain rfl : rest = b := by simpa using hsame
  exact hcut

/-- A text is found before the colon that follows it whatever stands behind the colon. -/
theorem split?_append {t rest d : Text} (h : split? (t ++ ':' :: rest) = some (t, d))
    (rest' : Text) : split? (t ++ ':' :: rest') = some (t, Text.trim rest') := by
  obtain ⟨a, b, -, -, ha, -⟩ := split?_eq_some h
  have hcut := cutAtColon?_append (cutAtColon?_of_split? h) rest'
  have htrim : Text.trim t = t := by rw [← ha, Text.trim_trim]
  simp [split?, hcut, htrim]

/-! ## Cutting at a parenthesis -/

theorem eq_of_cutAtParen? {depth : Nat} {s a b : Text} (h : cutAtParen? depth s = some (a, b)) :
    s = a ++ ')' :: b := by
  fun_induction cutAtParen? depth s generalizing a with
  | case1 => cases h
  | case2 c cs hc =>
    cases h
    obtain rfl : c = ')' := by simpa using hc
    rfl
  | case3 c cs hc depth ih =>
    obtain ⟨⟨a', b'⟩, hcut, heq⟩ := Option.map_eq_some_iff.mp h
    cases heq
    rw [ih hcut, List.cons_append]
  | case4 depth c cs _ ih =>
    obtain ⟨⟨a', b'⟩, hcut, heq⟩ := Option.map_eq_some_iff.mp h
    cases heq
    rw [ih hcut, List.cons_append]

/-- Where a parenthesis closes does not depend on what follows it. -/
theorem cutAtParen?_append {depth : Nat} {a b : Text}
    (h : cutAtParen? depth (a ++ ')' :: b) = some (a, b)) (b' : Text) :
    cutAtParen? depth (a ++ ')' :: b') = some (a, b') := by
  induction a generalizing depth with
  | nil =>
    cases depth with
    | zero => simp [cutAtParen?]
    | succ depth => simp [cutAtParen?] at h
  | cons c a ih =>
    simp only [List.cons_append, cutAtParen?] at h ⊢
    split at h
    · rename_i hc
      rw [if_pos hc]
      cases depth with
      | zero => simp at h
      | succ depth =>
        obtain ⟨⟨a', b''⟩, hcut, heq⟩ := Option.map_eq_some_iff.mp h
        cases heq
        simp [ih hcut]
    · rename_i hc
      obtain ⟨⟨a', b''⟩, hcut, heq⟩ := Option.map_eq_some_iff.mp h
      cases heq
      rw [if_neg hc, ih hcut]
      rfl

/-- A text is found inside the parentheses around it whatever stands behind them. -/
theorem closeParen?_append_iff {t rest : Text} :
    (∃ a b, closeParen? (t ++ ')' :: rest) = some (a, b) ∧ Text.trim a = t) ↔
      closeParen? (t ++ ")".toList) = some (t, []) ∧ Text.trim t = t := by
  constructor
  · rintro ⟨a, b, h, ha⟩
    have hsame := eq_of_cutAtParen? h
    have hat : a = t := Text.eq_of_trim_eq (by decide) hsame.symm ha
    rw [hat] at h hsame ha
    obtain rfl : rest = b := by simpa using hsame
    exact ⟨cutAtParen?_append h [], ha⟩
  · rintro ⟨h, ht⟩
    exact ⟨t, rest, cutAtParen?_append h rest, ht⟩

/-! ## Parts of a head -/

theorem trim_sublist (s : Text) : Text.trim s <+ s := (Text.trim_isInfix s).sublist

theorem sublist_of_split? {s t d : Text} (h : split? s = some (t, d)) :
    t ++ d <+ s ∧ Text.trim t = t ∧ Text.trim d = d := by
  obtain ⟨a, b, -, rfl, rfl, rfl⟩ := split?_eq_some h
  refine ⟨?_, Text.trim_trim a, Text.trim_trim b⟩
  exact (trim_sublist a).append ((trim_sublist b).trans (List.sublist_cons_self _ _))

theorem sublist_of_tailDescription? {s d : Text} (h : tailDescription? s = some d) :
    d <+ s ∧ Text.trim d = d := by
  have htail : Text.trimStart s <+ s := List.dropWhile_sublist _
  unfold tailDescription? at h
  split at h
  · cases h
    exact ⟨List.nil_sublist _, rfl⟩
  · rename_i rest hrest
    cases h
    rw [hrest] at htail
    refine ⟨?_, Text.trim_trim rest⟩
    exact (trim_sublist rest).trans ((List.sublist_cons_self _ _).trans htail)
  · cases h

/-- The name, the type and the description of a parameter stand in the head of its item. -/
theorem paramHead?_spec {s : Text} {h : Head} (hs : paramHead? s = some h) :
    h.name ≠ [] ∧ (∀ c ∈ h.name, isNameChar c = true) ∧ Text.trim h.typeName = h.typeName ∧
      Text.trim h.description = h.description ∧ h.name ++ h.typeName ++ h.description <+ s := by
  have hchars : ∀ c ∈ s.takeWhile isNameChar, isNameChar c = true :=
    fun c hc => List.mem_takeWhile_imp hc
  have htail : Text.trimStart (s.dropWhile isNameChar) <+ s.dropWhile isNameChar :=
    List.dropWhile_sublist _
  have hwhole : ∀ u, u <+ s.dropWhile isNameChar → s.takeWhile isNameChar ++ u <+ s := by
    intro u hu
    conv_rhs => rw [← List.takeWhile_append_dropWhile (p := isNameChar) (l := s)]
    exact hu.append_left _
  simp only [paramHead?] at hs
  split at hs
  · cases hs
  · rename_i hname
    have hne : s.takeWhile isNameChar ≠ [] := by simpa using hname
    split at hs
    · rename_i inner hinner
      simp only [Option.bind_eq_bind, Option.bind_eq_some_iff] at hs
      obtain ⟨⟨typeName, tail⟩, hclose, description, hdesc, heq⟩ := hs
      cases heq
      obtain ⟨hsub, hdt⟩ := sublist_of_tailDescription? hdesc
      refine ⟨hne, hchars, Text.trim_trim _, hdt, ?_⟩
      rw [List.append_assoc]
      refine hwhole _ (List.Sublist.trans ?_ htail)
      rw [hinner, eq_of_cutAtParen? hclose]
      exact ((trim_sublist typeName).append (hsub.trans (List.sublist_cons_self _ _))).trans
        (List.sublist_cons_self _ _)
    · rename_i after hafter
      have hsub : Text.trim after <+ s.dropWhile isNameChar :=
        ((trim_sublist after).trans (List.sublist_cons_self _ _)).trans (hafter ▸ htail)
      split at hs
      · cases hs
        exact ⟨hne, hchars, rfl, Text.trim_trim _, by simpa using hwhole _ hsub⟩
      · cases hs
        exact ⟨hne, hchars, Text.trim_trim _, rfl, by simpa using hwhole _ hsub⟩
    · cases hs

theorem errorHead?_spec {s : Text} {h : Head} (hs : errorHead? s = some h)
    (htrim : Text.trim s = s) :
    h.name = [] ∧ Text.trim h.typeName = h.typeName ∧ Text.trim h.description = h.description ∧
      h.typeName ++ h.description <+ s := by
  unfold errorHead? at hs
  split at hs
  · rename_i t d hsplit
    obtain ⟨hsub, ht, hd⟩ := sublist_of_split? hsplit
    split at hs
    · cases hs
      exact ⟨rfl, ht, hd, hsub⟩
    · cases hs
  · split at hs
    · cases hs
      exact ⟨rfl, htrim, rfl, by simp⟩
    · cases hs

/-! ## Heads as they are written -/

theorem takeWhile_isNameChar {name : Text} (h : ∀ c ∈ name, isNameChar c = true) {c : Char}
    (hc : isNameChar c = false) (rest : Text) :
    (name ++ c :: rest).takeWhile isNameChar = name ∧
      (name ++ c :: rest).dropWhile isNameChar = c :: rest := by
  rw [List.takeWhile_append_of_pos h, List.dropWhile_append_of_pos h]
  simp [hc]

theorem paramHead?_untyped {name : Text} (hne : name ≠ [])
    (h : ∀ c ∈ name, isNameChar c = true) (rest : Text) :
    paramHead? (name ++ ':' :: rest) = some ⟨name, [], Text.trim rest⟩ := by
  obtain ⟨htake, hdrop⟩ := takeWhile_isNameChar h (c := ':') (by decide) rest
  have hstart := Text.trimStart_cons_of_not_blank (c := ':') (by decide) rest
  simp [paramHead?, htake, hdrop, hne, hstart]

/-- A parameter with a type that closes its own parentheses is read back. -/
theorem paramHead?_typed {name typeName : Text} (hne : name ≠ [])
    (h : ∀ c ∈ name, isNameChar c = true) (htrim : Text.trim typeName = typeName)
    (hclose : closeParen? (typeName ++ ")".toList) = some (typeName, [])) (rest : Text) :
    paramHead? (name ++ " (".toList ++ typeName ++ "):".toList ++ rest) =
      some ⟨name, typeName, Text.trim rest⟩ := by
  have hsame : name ++ " (".toList ++ typeName ++ "):".toList ++ rest =
      name ++ ' ' :: '(' :: (typeName ++ ')' :: ':' :: rest) := by simp
  obtain ⟨htake, hdrop⟩ := takeWhile_isNameChar h (c := ' ') (by decide)
    ('(' :: (typeName ++ ')' :: ':' :: rest))
  have hstart : Text.trimStart (' ' :: '(' :: (typeName ++ ')' :: ':' :: rest)) =
      '(' :: (typeName ++ ')' :: ':' :: rest) := by
    rw [Text.trimStart_cons_blank (by decide), Text.trimStart_cons_of_not_blank (by decide)]
  have hcut : closeParen? (typeName ++ ')' :: ':' :: rest) = some (typeName, ':' :: rest) :=
    cutAtParen?_append hclose _
  have htail : tailDescription? (':' :: rest) = some (Text.trim rest) := by
    rw [tailDescription?, Text.trimStart_cons_of_not_blank (by decide)]
    rfl
  rw [hsame]
  simp [paramHead?, htake, hdrop, hne, hstart, hcut, htail, htrim]

/-- Only such a type is read back. -/
theorem closeParen?_of_paramHead? {name typeName rest : Text} {h : Head}
    (hs : paramHead? (name ++ " (".toList ++ typeName ++ "):".toList ++ rest) = some h)
    (hname : h.name = name) (htype : h.typeName = typeName) :
    closeParen? (typeName ++ ")".toList) = some (typeName, []) := by
  obtain ⟨hne, hchars, -⟩ := paramHead?_spec hs
  rw [hname] at hne hchars
  have hsame : name ++ " (".toList ++ typeName ++ "):".toList ++ rest =
      name ++ ' ' :: '(' :: (typeName ++ ')' :: ':' :: rest) := by simp
  obtain ⟨htake, hdrop⟩ := takeWhile_isNameChar hchars (c := ' ') (by decide)
    ('(' :: (typeName ++ ')' :: ':' :: rest))
  have hstart : Text.trimStart (' ' :: '(' :: (typeName ++ ')' :: ':' :: rest)) =
      '(' :: (typeName ++ ')' :: ':' :: rest) := by
    rw [Text.trimStart_cons_blank (by decide), Text.trimStart_cons_of_not_blank (by decide)]
  rw [hsame] at hs
  simp only [paramHead?, htake, hdrop, hstart, List.isEmpty_iff, hne, if_false,
    Option.bind_eq_bind, Option.bind_eq_some_iff] at hs
  obtain ⟨⟨inside, tail⟩, hclose, description, -, heq⟩ := hs
  cases heq
  exact (closeParen?_append_iff.mp ⟨inside, tail, hclose, htype⟩).1

/-- Types that may be written in front of a colon: no type at all, or one that reads as a type
and that the colon behind it ends. -/
def DelimitedType (t : Text) : Prop :=
  t = [] ∨ looksLikeType t = true ∧ split? (t ++ ":".toList) = some (t, [])

/-- What stands before a colon is a type to be written there if it is read as one. -/
theorem delimitedType_of_split? {t rest d : Text} (h : split? (t ++ ':' :: rest) = some (t, d))
    (ht : t = [] ∨ looksLikeType t = true) : DelimitedType t :=
  ht.imp id fun ht => ⟨ht, split?_append h []⟩

theorem DelimitedType.split? {t : Text} (h : DelimitedType t) (rest : Text) :
    Field.split? (t ++ ':' :: rest) = some (t, Text.trim rest) ∧
      (t.isEmpty || looksLikeType t) = true := by
  rcases h with rfl | ⟨hlooks, hsplit⟩
  · exact ⟨rfl, rfl⟩
  · exact ⟨split?_append hsplit rest, by simp [hlooks]⟩

theorem errorHead?_of_delimitedType {t : Text} (h : DelimitedType t) (rest : Text) :
    errorHead? (t ++ ':' :: rest) = some ⟨[], t, Text.trim rest⟩ := by
  obtain ⟨hsplit, hlooks⟩ := h.split? rest
  simp only [errorHead?, hsplit, hlooks, if_true]

theorem delimitedType_of_errorHead? {t rest : Text} {h : Head}
    (hs : errorHead? (t ++ ':' :: rest) = some h) (ht : h.typeName = t) : DelimitedType t := by
  unfold errorHead? at hs
  split at hs
  · rename_i t' d hsplit
    split at hs
    · rename_i hlooks
      cases hs
      obtain rfl : t' = t := ht
      exact delimitedType_of_split? hsplit (by simpa using hlooks)
    · cases hs
  · split at hs
    · cases hs
      simp at ht
    · cases hs

end Field

namespace Item

theorem returnedHead_spec {s : Text} (htrim : Text.trim s = s) :
    Text.trim (returnedHead s).typeName = (returnedHead s).typeName ∧
      Text.trim (returnedHead s).description = (returnedHead s).description ∧
      (returnedHead s).typeName ++ (returnedHead s).description <+ s := by
  unfold returnedHead
  split
  · rename_i t d hsplit
    obtain ⟨hsub, ht, hd⟩ := Field.sublist_of_split? hsplit
    split
    · exact ⟨ht, hd, hsub⟩
    · exact ⟨rfl, htrim, by simp⟩
  · split
    · exact ⟨htrim, rfl, by simp⟩
    · exact ⟨rfl, htrim, by simp⟩

/-- A return value whose type may stand in front of a colon is read back. -/
theorem returnedHead_of_delimitedType {t : Text} (h : Field.DelimitedType t) (rest : Text) :
    returnedHead (t ++ ':' :: rest) = ⟨t, Text.trim rest⟩ := by
  obtain ⟨hsplit, hlooks⟩ := h.split? rest
  simp only [returnedHead, hsplit, hlooks, if_true]

/-- Only a return value with such a type is read back. -/
theorem delimitedType_of_returnedHead {t rest : Text}
    (ht : (returnedHead (t ++ ':' :: rest)).typeName = t) : Field.DelimitedType t := by
  unfold returnedHead at ht
  split at ht
  · rename_i t' d hsplit
    split at ht
    · rename_i hlooks
      obtain rfl : t' = t := ht
      exact Field.delimitedType_of_split? hsplit (by simpa using hlooks)
    · exact .inl ht.symm
  · split at ht
    · simp at ht
    · exact .inl ht.symm

end Item

end ApiDocs
