import ApiDocs.Docstring.Parser
import ApiDocs.Proofs.Docstring.Classification
import ApiDocs.Proofs.Docstring.FieldSyntax
import ApiDocs.Proofs.Text.Cut

/-!
# Declarations of fields

A field such as `:param str name: text` loses its keyword when it is read. What is left is a part
of its line: the declaration, of which a parameter takes the last word as its name, and the
description.

* `Block.declaration?_spec`: what is left of a field without its keyword.
* `Block.declaredParam_spec`: the name and the type of a parameter that a field declares.
-/

namespace ApiDocs

open scoped List

namespace Text

theorem blank_eq_false_of_trim_append {a b : Text} {c : Char} (hc : isBlank c = true)
    (h : trim (a ++ c :: b) = a ++ c :: b) : blank b = false := by
  by_contra hb
  have hend : blank (c :: b) = true := by
    rw [← List.singleton_append, blank_append]
    simpa [blank, hc] using hb
  have hlen : (trim (a ++ c :: b)).length ≤ a.length := by
    rw [trim_append_blank hend]
    exact (trim_isInfix a).length_le
  rw [h, List.length_append, List.length_cons] at hlen
  omega

/-! ## Words -/

theorem words_cons_of_not_blank {c : Char} (hc : isBlank c = false) (s : Text) :
    ∃ w more, words (c :: s) = (c :: w) :: more := by
  obtain ⟨w, more, hs⟩ := List.exists_cons_of_ne_nil (List.splitOnP_ne_nil isBlank s)
  refine ⟨w, more.filter (fun w => !w.isEmpty), ?_⟩
  simp [words, List.splitOnP_cons_eq_if_modifyHead, hc, hs]

theorem words_of_not_blank {s : Text} (h : ∀ c ∈ s, isBlank c = false) (hne : s ≠ []) :
    words s = [s] := by
  rw [words, List.splitOnP_eq_singleton (fun c hc => by simp [h c hc])]
  simp [hne]

end Text

namespace Line

/-- Keywords of fields consist of letters, and the keyword of a parameter is followed by more. -/
theorem sectionOfKeyword?_eq_some {word : Text} {more : List Text} {k : Section}
    (h : sectionOfKeyword? (word :: more) = some k) :
    (∀ c ∈ word, c.toLower.isLower = true) ∧ (k = .parameters → more ≠ []) := by
  have hletters : ∀ w ∈ ["param".toList, "parameter".toList, "return".toList, "returns".toList,
      "raise".toList, "raises".toList], ∀ c ∈ w, c.isLower = true := by simp
  have hword : Text.lowerAscii word ∈ ["param".toList, "parameter".toList, "return".toList,
      "returns".toList, "raise".toList, "raises".toList] := by
    simp only [sectionOfKeyword?] at h
    split at h
    · rename_i hc
      simp only [Bool.and_eq_true, Bool.or_eq_true, beq_iff_eq] at hc
      rcases hc.1 with hw | hw <;> simp [hw]
    · split at h
      · rename_i hc
        simp only [Bool.or_eq_true, beq_iff_eq] at hc
        rcases hc with hw | hw <;> simp [hw]
      · split at h
        · rename_i hc
          simp only [Bool.or_eq_true, beq_iff_eq] at hc
          rcases hc with hw | hw <;> simp [hw]
        · cases h
  refine ⟨fun c hc => hletters _ hword _ (List.mem_map_of_mem hc), ?_⟩
  rintro rfl rfl
  simp only [sectionOfKeyword?] at h
  split at h
  · rename_i hc
    simp at hc
  · split at h
    · cases h
    · split at h <;> cases h

end Line

namespace Block

/-! ## What a field declares -/

/-- The declaration of a field after its keyword. -/
def declaredText (declaration : Text) : Text :=
  match Text.cutAtFirst? Text.isBlank declaration with
  | some (_, rest) => Text.trim rest
  | none => []

/-- The keyword of a declaration is lost, and with it the first letter. -/
theorem declaredText_spec {declaration : Text} {k : Section}
    (htrim : Text.trim declaration = declaration)
    (h : Line.sectionOfKeyword? (Text.words declaration) = some k) :
    Text.trim (declaredText declaration) = declaredText declaration ∧
      (∃ c : Char, c.toLower.isLower = true ∧ c :: declaredText declaration <+ declaration) ∧
      (k = .parameters → declaredText declaration ≠ []) := by
  cases declaration with
  | nil => simp [Text.words, Line.sectionOfKeyword?] at h
  | cons c cs =>
    have hc : Text.isBlank c = false := (Text.trim_eq_self_iff.mp htrim).1 c rfl
    obtain ⟨w, more, hwords⟩ := Text.words_cons_of_not_blank hc cs
    rw [hwords] at h
    obtain ⟨hletters, hmore⟩ := Line.sectionOfKeyword?_eq_some h
    have hletter := hletters c List.mem_cons_self
    unfold declaredText
    cases hcut : Text.cutAtFirst? Text.isBlank (c :: cs) with
    | none =>
      refine ⟨rfl, ⟨c, hletter, by simp⟩, fun hk => absurd ?_ (hmore hk)⟩
      rw [Text.words_of_not_blank (Text.cutAtFirst?_eq_none hcut) (by simp)] at hwords
      exact (List.cons.inj hwords).2.symm
    | some parts =>
      obtain ⟨a, b⟩ := parts
      obtain ⟨d, hsame, hd⟩ := Text.cutAtFirst?_eq_some hcut
      refine ⟨Text.trim_trim b, ⟨c, hletter, ?_⟩, fun _ hnil => ?_⟩
      · -- the cut does not fall on the first letter, since that is no blank
        cases a with
        | nil =>
          obtain ⟨rfl, -⟩ := List.cons.inj hsame
          simp [hc] at hd
        | cons x a =>
          obtain ⟨rfl, rfl⟩ := List.cons.inj hsame
          refine List.Sublist.cons_cons c ?_
          exact (Field.trim_sublist b).trans
            ((List.sublist_cons_self d b).trans (List.sublist_append_right a _))
      · rw [hsame] at htrim
        have hb := Text.blank_eq_false_of_trim_append hd htrim
        rw [Text.trim_eq_nil_iff.mp hnil] at hb
        cases hb

/-- What is left of a field without its keyword: the declaration and the description, both parts
of its line. -/
theorem declaration?_spec {s : Text} {k : Section} (h : Line.fieldSection? s = some k) :
    ∃ declared inline, (∀ continuation, declaration? (Text.trim s) continuation =
        some (declared, Item.appendLines inline continuation)) ∧
      Text.trim declared = declared ∧ Text.trim inline = inline ∧
      (∃ c : Char, c.toLower.isLower = true ∧ c :: (declared ++ inline) <+ Text.trim s) ∧
      (k = .parameters → declared ≠ []) := by
  obtain ⟨field, declaration, inline, hs, hsplit, hk⟩ := Line.fieldSection?_eq_some h
  obtain ⟨hsub, hdt, hit⟩ := Field.sublist_of_split? hsplit
  obtain ⟨htrim, ⟨c, hc, hcsub⟩, hne⟩ := declaredText_spec hdt hk
  refine ⟨declaredText declaration, inline, fun continuation => ?_, htrim, hit, ⟨c, hc, ?_⟩, hne⟩
  · have hcolon : ":".toList.isPrefixOf? (':' :: field) = some field := by simp [List.isPrefixOf?]
    simp only [declaration?, hs, hcolon, Option.bind_eq_bind, Option.bind_some, hsplit]
    rfl
  · rw [hs, ← List.cons_append]
    exact (hcsub.append_right inline).trans (hsub.trans (List.sublist_cons_self _ _))

/-- The name of a parameter that a field declares is one word, and its type stands before it. -/
theorem declaredParam_spec {declared : Text} (htrim : Text.trim declared = declared)
    (hne : declared ≠ []) (description : Text) :
    (declaredParam declared description).name ≠ [] ∧
      (∀ c ∈ (declaredParam declared description).name, Text.isBlank c = false) ∧
      Text.trim (declaredParam declared description).typeName =
        (declaredParam declared description).typeName ∧
      (declaredParam declared description).typeName ++
        (declaredParam declared description).name <+ declared ∧
      (declaredParam declared description).description = description := by
  unfold declaredParam
  cases hcut : Text.cutAtLast? Text.isBlank declared with
  | none => exact ⟨hne, Text.cutAtLast?_eq_none hcut, rfl, by simp, rfl⟩
  | some parts =>
    obtain ⟨a, b⟩ := parts
    obtain ⟨c, hsame, hc, hsolid⟩ := Text.cutAtLast?_eq_some hcut
    rw [hsame] at htrim
    have hb := Text.blank_eq_false_of_trim_append hc htrim
    refine ⟨Text.ne_nil_of_blank_eq_false hb, hsolid, Text.trim_trim a, ?_, rfl⟩
    rw [hsame]
    exact (Field.trim_sublist a).append (List.sublist_cons_self c b)

end Block

end ApiDocs
