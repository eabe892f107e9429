import ApiDocs.Proofs.Docstring.ReadBack

/-!
# The form of what is read

What a docstring documents is in normal form, whatever text it is read from. Here the normal form is
taken apart: what names, types and descriptions of documented things look like, and what the
description of the whole and its example code look like.

A description is joined from parts of the text: the part of a line that stands behind a head, and
whole lines after it. A join is a line break where a code span is open, and one blank elsewhere.

* `Item.JoinsLines`: descriptions that are joined from lines of a text.
* `Block.joinsLines_of_madeFrom`: every description in a block is joined from lines of its text.
* `Docstring.parse_tags_form`: the form of documented things.
* `Docstring.parse_text_form`: the form of description and example code.
-/

namespace ApiDocs

/-! ## What stands behind a head -/

namespace Field

theorem trim_isInfix_of_suffix {s rest : Text} {c : Char} (h : c :: rest <:+ s) :
    Text.trim rest <:+: s :=
  (Text.trim_isInfix rest).trans ((List.suffix_cons c rest).trans h).isInfix

theorem description_of_split? {s t d : Text} (h : split? s = some (t, d)) : d <:+: s := by
  obtain ⟨a, b, -, rfl, -, rfl⟩ := split?_eq_some h
  exact trim_isInfix_of_suffix (List.suffix_append a _)

theorem description_of_tailDescription? {s d : Text} (h : tailDescription? s = some d) :
    d <:+: s := by
  have hstart : Text.trimStart s <:+ s := List.dropWhile_suffix _
  unfold tailDescription? at h
  split at h
  · cases h
    exact List.nil_infix
  · rename_i rest hrest
    cases h
    rw [hrest] at hstart
    exact trim_isInfix_of_suffix hstart
  · cases h

theorem description_of_paramHead? {s : Text} {h : Head} (hs : paramHead? s = some h) :
    h.description <:+: s := by
  have hrest : Text.trimStart (s.dropWhile isNameChar) <:+ s :=
    (List.dropWhile_suffix _).trans (List.dropWhile_suffix _)
  simp only [paramHead?] at hs
  split at hs
  · cases hs
  · split at hs
    · rename_i inner hinner
      simp only [Option.bind_eq_bind, Option.bind_eq_some_iff] at hs
      obtain ⟨⟨typeName, tail⟩, hclose, description, htail, hhead⟩ := hs
      cases hhead
      rw [hinner, eq_of_cutAtParen? hclose] at hrest
      have hsuffix : tail <:+ s :=
        ((List.suffix_cons ')' tail).trans (List.suffix_append typeName _)).trans
          ((List.suffix_cons '(' _).trans hrest)
      exact (description_of_tailDescription? htail).trans hsuffix.isInfix
    · rename_i after hafter
      split at hs
      · cases hs
        rw [hafter] at hrest
        exact trim_isInfix_of_suffix hrest
      · cases hs
        exact List.nil_infix
    · cases hs

theorem description_of_errorHead? {s : Text} {h : Head} (hs : errorHead? s = some h) :
    h.description <:+: s := by
  unfold errorHead? at hs
  split at hs
  · rename_i t d hsplit
    split at hs
    · cases hs
      exact description_of_split? hsplit
    · cases hs
  · split at hs
    · cases hs
      exact List.nil_infix
    · cases hs

end Field

theorem Item.description_returnedHead (s : Text) : (returnedHead s).description <:+: s := by
  unfold returnedHead
  split
  · rename_i t d hsplit
    split
    · exact Field.description_of_split? hsplit
    · exact List.infix_rfl
  · split
    · exact List.nil_infix
    · exact List.infix_rfl

theorem Block.description_of_declaration? {first : Text} {continuation : List Text}
    {declared description : Text}
    (h : declaration? first continuation = some (declared, description)) :
    ∃ inline, inline <:+: first ∧ description = Item.appendLines inline continuation := by
  simp only [declaration?, Option.bind_eq_bind, Option.bind_eq_some_iff] at h
  obtain ⟨field, hfield, ⟨declaration, inline⟩, hsplit, heq⟩ := h
  cases heq
  have hsuffix : field <:+ first :=
    ⟨":".toList, List.isPrefixOf?_eq_some_iff_append_eq.mp hfield⟩
  exact ⟨inline, (Field.description_of_split? hsplit).trans hsuffix.isInfix, rfl⟩

/-! ## Descriptions from lines -/

namespace Item

/-- A description that is joined from lines of a text: from a part of one line and, after it, from
whole lines, trimmed and none of them blank. -/
def JoinsLines (lines : List Text) (d : Text) : Prop :=
  ∃ first more, d = appendLines first more ∧ (∃ l ∈ lines, first <:+: l) ∧
    ∀ m ∈ more, Text.blank m = false ∧ ∃ l ∈ lines, m = Text.trim l

theorem JoinsLines.appendLine {lines : List Text} {d l : Text} (h : JoinsLines lines d)
    (hl : l ∈ lines) (hb : Text.blank l = false) :
    JoinsLines lines (appendLine d (Text.trim l)) := by
  obtain ⟨first, more, rfl, hfirst, hmore⟩ := h
  refine ⟨first, more ++ [Text.trim l], ?_, hfirst, ?_⟩
  · rw [appendLines, appendLines, List.foldl_append]
    rfl
  intro m hm
  rcases List.mem_append.mp hm with hm | hm
  · exact hmore m hm
  · rw [List.mem_singleton.mp hm]
    exact ⟨by simpa using hb, l, hl, rfl⟩

/-- The non-blank lines of classified lines, as they stand in the text. -/
theorem mem_of_mem_filter_classify {zs : List Text} {l : Line}
    (h : l ∈ (Line.classify zs).filter (!·.isBlank)) :
    l.text ∈ zs ∧ Text.blank l.text = false := by
  obtain ⟨hl, hb⟩ := List.mem_filter.mp h
  refine ⟨Line.text_mem_of_mem_classify hl, ?_⟩
  have hkind : l.kind ≠ .blank := by simpa [Line.isBlank] using hb
  rw [ne_eq, (Line.kind_spec hl).1] at hkind
  simpa using hkind

theorem joinsLines_of_mem_collect {head? : Text → Option Field.Head}
    (hhead : ∀ {s h}, head? s = some h → h.description <:+: s) (zs : List Text) :
    ∀ i ∈ collect head? (Line.classify zs), JoinsLines zs i.head.description := by
  refine forall_mem_collectLines (P := fun h => JoinsLines zs h.description) ?_ ?_
  · intro l hl h hh
    have hinfix : h.description <:+: l.text := (hhead hh).trans (Text.trim_isInfix l.text)
    exact ⟨h.description, [], rfl, ⟨l.text, (mem_of_mem_filter_classify hl).1, hinfix⟩, by simp⟩
  · intro h hh l hl
    obtain ⟨hmem, hb⟩ := mem_of_mem_filter_classify hl
    exact hh.appendLine hmem hb

theorem JoinsLines.mono {zs xs : List Text} {d : Text} (h : JoinsLines zs d) (hsub : zs ⊆ xs) :
    JoinsLines xs d := by
  obtain ⟨first, more, rfl, ⟨l, hl, hfirst⟩, hmore⟩ := h
  refine ⟨first, more, rfl, ⟨l, hsub hl, hfirst⟩, fun m hm => ?_⟩
  obtain ⟨hb, l', hl', hm'⟩ := hmore m hm
  exact ⟨hb, l', hsub hl', hm'⟩

theorem joinsLines_of_returned? {zs : List Text} {t : TypedTag}
    (h : returned? (Line.classify zs) = some t) : JoinsLines zs t.description := by
  have hlines : ∀ m ∈ ((Line.classify zs).filter (!·.isBlank)).map (·.trimmed),
      Text.blank m = false ∧ ∃ l ∈ zs, m = Text.trim l := by
    intro m hm
    obtain ⟨l, hl, rfl⟩ := List.mem_map.mp hm
    obtain ⟨hmem, hb⟩ := mem_of_mem_filter_classify hl
    exact ⟨by simpa [Line.trimmed] using hb, l.text, hmem, rfl⟩
  simp only [returned?] at h
  split at h
  · cases h
  · rename_i first more hsplit
    cases h
    rw [hsplit] at hlines
    obtain ⟨⟨-, l, hl, rfl⟩, hmore⟩ := List.forall_mem_cons.mp hlines
    exact ⟨_, more, rfl, ⟨l, hl, (description_returnedHead _).trans (Text.trim_isInfix l)⟩, hmore⟩

end Item

namespace Block

theorem description_declaredParam (declared description : Text) :
    (declaredParam declared description).description = description := by
  unfold declaredParam
  split <;> rfl

theorem joinsLines_of_declaration? {s : Text} {zs : List Text} {declared description : Text}
    (h : declaration? (Text.trim s) ((zs.takeWhile (!Text.blank ·)).map Text.trim) =
      some (declared, description)) : Item.JoinsLines (s :: zs) description := by
  obtain ⟨inline, hinline, rfl⟩ := description_of_declaration? h
  refine ⟨inline, _, rfl, ⟨s, List.mem_cons_self, hinline.trans (Text.trim_isInfix s)⟩, ?_⟩
  intro m hm
  obtain ⟨z, hz, rfl⟩ := List.mem_map.mp hm
  have hb := List.mem_takeWhile_imp hz
  exact ⟨by simpa using hb, z, List.mem_cons_of_mem _ ((List.takeWhile_sublist _).subset hz), rfl⟩

/-- Every description in a block is joined from lines of its text. -/
theorem joinsLines_of_madeFrom {xs : List Text} {b : Block} (hb : MadeFrom xs b) :
    (∀ p ∈ b.params, Item.JoinsLines xs p.description) ∧
      (∀ t ∈ b.returned?, Item.JoinsLines xs t.description) ∧
      ∀ t ∈ b.errors, Item.JoinsLines xs t.description := by
  cases hb with
  | @body k zs inRow quiet =>
    cases k with
    | parameters =>
      refine ⟨fun p hp => ?_, by simp [returned?], by simp [errors]⟩
      obtain ⟨i, hi, rfl⟩ := List.mem_map.mp hp
      have hjoins := Item.joinsLines_of_mem_collect Field.description_of_paramHead? zs i hi
      exact hjoins.mono inRow.subset
    | returns =>
      refine ⟨by simp [params], fun t ht => ?_, by simp [errors]⟩
      exact (Item.joinsLines_of_returned? ht).mono inRow.subset
    | raises =>
      refine ⟨by simp [params], by simp [returned?], fun t ht => ?_⟩
      obtain ⟨i, hi, rfl⟩ := List.mem_map.mp ht
      have hjoins := Item.joinsLines_of_mem_collect Field.description_of_errorHead? zs i hi
      exact hjoins.mono inRow.subset
    | examples => simp [params, returned?, errors]
  | @field k s zs first inRow declares quiet =>
    have hfield : ∀ {declared description}, declaration? (Text.trim s)
        ((zs.takeWhile (!Text.blank ·)).map Text.trim) = some (declared, description) →
        Item.JoinsLines xs description := by
      intro declared description h
      exact (joinsLines_of_declaration? h).mono
        (List.cons_subset.mpr ⟨first, inRow.subset⟩)
    cases k with
    | parameters =>
      refine ⟨fun p hp => ?_, by simp [returned?], by simp [errors]⟩
      simp only [params, Option.mem_toList, Option.map_eq_some_iff] at hp
      obtain ⟨⟨declared, description⟩, hdecl, rfl⟩ := hp
      rw [description_declaredParam]
      exact hfield hdecl
    | returns =>
      refine ⟨by simp [params], fun t ht => ?_, by simp [errors]⟩
      simp only [returned?, Option.mem_def, Option.map_eq_some_iff] at ht
      obtain ⟨⟨declared, description⟩, hdecl, rfl⟩ := ht
      exact hfield hdecl
    | raises =>
      refine ⟨by simp [params], by simp [returned?], fun t ht => ?_⟩
      simp only [errors, Option.mem_toList, Option.map_eq_some_iff] at ht
      obtain ⟨⟨declared, description⟩, hdecl, rfl⟩ := ht
      exact hfield hdecl
    | examples => simp [params, returned?, errors]

end Block

/-! ## Documented things -/

namespace Item

theorem trim_appendLine {d l : Text} (hd : Text.trim d = d) (hl : Text.trim l = l)
    (hb : Text.blank l = false) : Text.trim (appendLine d l) = appendLine d l := by
  unfold appendLine
  split
  · exact hl
  · rename_i hne
    rw [← List.singleton_append, ← List.append_assoc]
    exact Text.trim_append_append hd hl (by simpa using hne) (Text.ne_nil_of_blank_eq_false hb) _

theorem trim_appendLines {d : Text} (hd : Text.trim d = d) {lines : List Text}
    (h : ∀ l ∈ lines, Text.blank l = false ∧ Text.trim l = l) :
    Text.trim (appendLines d lines) = appendLines d lines := by
  induction lines generalizing d with
  | nil => exact hd
  | cons l lines ih =>
    obtain ⟨⟨hb, hl⟩, hrest⟩ := List.forall_mem_cons.mp h
    exact ih (trim_appendLine hd hl hb) hrest

theorem Joined.trimmed {d : Text} (h : Joined d) : Text.trim d = d := by
  obtain ⟨first, more, hsplit⟩ := List.exists_cons_of_ne_nil (List.splitOn_ne_nil '\n' d)
  have hline := h.line
  rw [hsplit] at hline
  obtain ⟨hfirst, hmore⟩ := List.forall_mem_cons.mp hline
  rw [← appendLines_of_joined h hsplit]
  exact trim_appendLines hfirst.2 hmore

end Item

namespace TypedTag

theorem Normal.trim_description {t : TypedTag} (h : t.Normal) :
    Text.trim t.description = t.description := by
  rcases h.description with hnil | hjoined
  · rw [hnil, Text.trim_nil]
  · exact hjoined.trimmed

theorem Normal.description_line {t : TypedTag} (h : t.Normal) {l : Text}
    (hl : l ∈ t.description.splitOn '\n') :
    Text.trim l = l ∧ (t.description ≠ [] → Text.blank l = false) := by
  rcases h.description with hnil | hjoined
  · rw [hnil, List.splitOn_nil] at hl
    rw [List.mem_singleton.mp hl]
    exact ⟨rfl, fun hne => absurd hnil hne⟩
  · exact ⟨(hjoined.line l hl).2, fun _ => (hjoined.line l hl).1⟩

theorem Normal.description_break {t : TypedTag} (h : t.Normal) {before after : Text}
    (hbreak : t.description = before ++ '\n' :: after) : before.count '\x60' % 2 = 1 := by
  rcases h.description with hnil | hjoined
  · simp [hnil] at hbreak
  · simpa [Item.inCodeSpan] using hjoined.span before after hbreak

end TypedTag

namespace Docstring

/-- What holds of all types with their descriptions holds of all documented things. -/
theorem forall_mem_tags {d : Docstring} {P : Text → Text → Prop}
    (hparams : ∀ p ∈ d.params, P p.typeName p.description)
    (hreturns : ∀ t ∈ d.returns, P t.typeName t.description)
    (hraises : ∀ t ∈ d.raises, P t.typeName t.description) :
    ∀ t ∈ d.tags, P t.typeName t.description := by
  intro t ht
  rcases List.mem_append.mp ht with ht | ht
  · rcases List.mem_append.mp ht with ht | ht
    · obtain ⟨p, hp, rfl⟩ := List.mem_map.mp ht
      exact hparams p hp
    · obtain ⟨r, hr, rfl⟩ := List.mem_map.mp ht
      exact hreturns r (by simpa using hr)
  · obtain ⟨e, he, rfl⟩ := List.mem_map.mp ht
    exact hraises e he

theorem Normal.typed {d : Docstring} (h : d.Normal) :
    ∀ t ∈ d.tags, TypedTag.Normal ⟨t.typeName, t.description⟩ :=
  forall_mem_tags (P := fun typeName description => TypedTag.Normal ⟨typeName, description⟩)
    (fun p hp => (h.params p hp).typed) h.returns h.raises

theorem joinsLines_of_mem_tags_parse (s : Text) :
    ∀ t ∈ (parse s).tags, Item.JoinsLines (Line.split s) t.description := by
  have hmade : ∀ b ∈ (Block.gather (Line.ofText s)).2, Block.MadeFrom (Line.split s) b :=
    fun b hb => Block.madeFrom_of_mem_gather hb
  refine forall_mem_tags (P := fun _ description => Item.JoinsLines (Line.split s) description)
    ?_ ?_ ?_
  · intro p hp
    obtain ⟨b, hb, hp⟩ := List.mem_flatMap.mp hp
    exact (Block.joinsLines_of_madeFrom (hmade b hb)).1 p hp
  · intro t ht
    obtain ⟨b, hb, ht⟩ := List.exists_of_findSome?_eq_some ht
    exact (Block.joinsLines_of_madeFrom (hmade b hb)).2.1 t ht
  · intro t ht
    obtain ⟨b, hb, ht⟩ := List.mem_flatMap.mp ht
    exact (Block.joinsLines_of_madeFrom (hmade b hb)).2.2 t ht

/-- **The form of documented things.** Names are single words, types are trimmed and on one line.
Descriptions are joined from lines of the text, each of them trimmed: with a line break inside an
open code span, and with one blank elsewhere. -/
theorem parse_tags_form (s : Text) :
    (∀ p ∈ (parse s).params, p.name ≠ [] ∧ ∀ c ∈ p.name, Text.isBlank c = false) ∧
      ∀ t ∈ (parse s).tags,
        Text.trim t.typeName = t.typeName ∧ '\n' ∉ t.typeName ∧
        Text.trim t.description = t.description ∧
        (∀ l ∈ t.description.splitOn '\n',
          Text.trim l = l ∧ (t.description ≠ [] → Text.blank l = false)) ∧
        (∀ before after, t.description = before ++ '\n' :: after →
          before.count '\x60' % 2 = 1) ∧
        Item.JoinsLines (Line.split s) t.description := by
  have hnormal := normal_parse s
  refine ⟨fun p hp => ⟨(hnormal.params p hp).name_ne_nil, (hnormal.params p hp).name_solid⟩, ?_⟩
  intro t ht
  have htyped := hnormal.typed t ht
  refine ⟨htyped.type_trimmed, htyped.type_line, htyped.trim_description, ?_, ?_,
    joinsLines_of_mem_tags_parse s t ht⟩
  · intro l hl
    exact htyped.description_line hl
  · intro before after hbreak
    exact htyped.description_break hbreak

/-- A description with a line break inside a code span and a blank after it. -/
theorem parse_tags_form_span :
    DocTag.param ⟨"n".toList, "int".toList, "`a\nb` c d".toList⟩ ∈
        (parse "Args:\n  n (int): `a\n    b` c\n\n    d".toList).tags ∧
      "`a".toList.count '\x60' % 2 = 1 := by
  have hmem : DocTag.param ⟨"n".toList, "int".toList, "`a\nb` c d".toList⟩ ∈
      (parse "Args:\n  n (int): `a\n    b` c\n\n    d".toList).tags := by decide
  obtain ⟨-, hform⟩ := parse_tags_form "Args:\n  n (int): `a\n    b` c\n\n    d".toList
  obtain ⟨-, -, -, -, hbreak, -⟩ := hform _ hmem
  exact ⟨hmem, hbreak "`a".toList "b` c d".toList (by decide)⟩

end Docstring

/-! ## Description and example code -/

theorem Line.kind_of_forall_not_opens {s : Text} (h : ∀ l ∈ ofText s, l.opens = false) :
    ∀ l ∈ ofText s, l.kind = .blank ∨ l.kind = .text := by
  intro l hl
  rw [ofText, classify_of_quiet (forall_opens_classify_iff.mp h)] at hl
  obtain ⟨t, -, rfl⟩ := List.mem_map.mp hl
  cases Text.blank t <;> simp

theorem Text.isPrefixOf?_eq_none_iff {s t : Text} : s.isPrefixOf? t = none ↔ ¬ s <+: t := by
  rw [Option.eq_none_iff_forall_ne_some, List.IsPrefix, not_exists]
  exact forall_congr' fun _ => not_congr List.isPrefixOf?_eq_some_iff_append_eq

theorem Example.directive?_eq_none_iff {s : Text} : directive? s = none ↔
    ¬ ".. code-block::".toList <+: Text.trim s ∧ ¬ ".. code::".toList <+: Text.trim s := by
  simp only [directive?, Option.map_eq_none_iff, Option.or_eq_none_iff,
    Text.isPrefixOf?_eq_none_iff]

namespace Docstring

/-- **The form of description and example code.** The description is trimmed and opens nothing. Each
block has code without blank lines at its ends and without a margin; nothing in it opens a section,
a field or another block. A language is a trimmed text on one line. -/
theorem parse_text_form (s : Text) :
    Text.trim (parse s).description = (parse s).description ∧
      (∀ l ∈ Line.ofText (parse s).description, l.kind = .blank ∨ l.kind = .text) ∧
      (∀ b ∈ (parse s).exampleBlocks,
        b.code ≠ [] ∧
        (∀ l, (b.code.splitOn '\n').head? = some l → Text.blank l = false) ∧
        (∀ l, (b.code.splitOn '\n').getLast? = some l → Text.blank l = false) ∧
        (∀ l ∈ b.code.splitOn '\n', Text.blank l = true → l = []) ∧
        (∃ l ∈ b.code.splitOn '\n', Text.blank l = false ∧ Text.indent l = 0) ∧
        (∀ l ∈ b.code.splitOn '\n',
          ¬ ".. code-block::".toList <+: Text.trim l ∧ ¬ ".. code::".toList <+: Text.trim l) ∧
        (∀ l ∈ Line.ofText b.code, l.kind = .blank ∨ l.kind = .text) ∧
        ∀ lang ∈ b.language, lang ≠ [] ∧ Text.trim lang = lang ∧ '\n' ∉ lang) ∧
      (parse s).examples = "\n\n".toList.intercalate ((parse s).exampleBlocks.map (·.code)) := by
  have hnormal := normal_parse s
  refine ⟨hnormal.description_trimmed, Line.kind_of_forall_not_opens hnormal.description_quiet, ?_,
    hnormal.examples⟩
  intro b hb
  have hblock := hnormal.exampleBlocks b hb
  have hdedented := hblock.dedented
  refine ⟨hblock.code_ne_nil, hdedented.head, hdedented.last, hdedented.eq_nil_of_blank,
    hdedented.flush (List.splitOn_ne_nil _ _), ?_,
    Line.kind_of_forall_not_opens hblock.code_quiet, hblock.language⟩
  intro l hl
  exact Example.directive?_eq_none_iff.mp (hblock.code_undirected l hl)

/-- A block with a language, whose lines have a margin and a blank line between them. -/
theorem parse_text_form_directive :
    ⟨some "py".toList, "f(x)\n\n  y".toList⟩ ∈
        (parse "Example\n---\n .. code:: py \n    f(x)\n \t\n      y".toList).exampleBlocks ∧
      ∃ l ∈ "f(x)\n\n  y".toList.splitOn '\n', Text.blank l = false ∧ Text.indent l = 0 := by
  have hmem : ⟨some "py".toList, "f(x)\n\n  y".toList⟩ ∈
      (parse "Example\n---\n .. code:: py \n    f(x)\n \t\n      y".toList).exampleBlocks := by
    decide
  obtain ⟨-, -, hblocks, -⟩ :=
    parse_text_form "Example\n---\n .. code:: py \n    f(x)\n \t\n      y".toList
  obtain ⟨-, -, -, -, hflush, -⟩ := hblocks _ hmem
  exact ⟨hmem, hflush⟩

end Docstring

end ApiDocs
