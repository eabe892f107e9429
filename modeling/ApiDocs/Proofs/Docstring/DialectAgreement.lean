import ApiDocs.Proofs.Docstring.Dialects

/-!
# Agreement of the dialects

A parameter with a name, a type and a description is read the same whether it stands under a header
with a colon, under an underlined header, or in a list of fields; so is an error. Nothing but the
items is read from such a text.

* `Dialect.Param`, `Dialect.Error`: documented things with the lines of their descriptions.
* `Dialect.Param.Plain`, `Dialect.Error.Plain`: those that can be documented in each dialect.
* `Docstring.parse_of_writes`: what is read in each dialect.
-/

namespace ApiDocs

namespace Dialect

/-! ## Parameters -/

/-- A parameter and the lines of its description. -/
structure Param where
  name : Text
  typeName : Text
  lines : List Text

namespace Param

def tag (p : Param) : ParamTag := ⟨p.name, p.typeName, Item.appendLines [] p.lines⟩

/-- Parameters that can be documented in each dialect. -/
structure Plain (p : Param) : Prop where
  name_ne_nil : p.name ≠ []
  nameChars : ∀ c ∈ p.name, Field.isNameChar c = true
  plainType : Field.PlainType p.typeName
  plainLines : ∀ l ∈ p.lines, PlainLine l

/-- `Args:`, and `    name (type): description`. -/
def sectioned : Dialect Param :=
  .sectioned "Args".toList (fun p => p.name ++ " (".toList ++ p.typeName ++ ")".toList) Param.lines

/-- `Parameters` with a rule under it, and `name : type` above the description. -/
def underlined (rule : Text) : Dialect Param :=
  .underlined .parameters rule (fun p => p.name ++ " : ".toList ++ p.typeName) Param.lines

/-- `:param type name: description`. -/
def fieldList : Dialect Param :=
  .fieldList "param".toList (fun p => p.typeName ++ ' ' :: p.name) Param.lines

variable {p : Param}

theorem Plain.declarable (h : p.Plain) : Field.Declarable p.name :=
  Field.declarable_of_isNameChar h.name_ne_nil h.nameChars

theorem Plain.head?_ne_colon (h : p.Plain) (rest : Text) : (p.name ++ rest).head? ≠ some ':' := by
  rw [List.head?_append_of_ne_nil _ h.name_ne_nil]
  exact h.declarable.head?_ne_colon

theorem Plain.readsAs_sectioned (h : p.Plain) :
    sectioned.ReadsAs Field.paramHead? p
      ⟨p.name, p.typeName, Item.appendLines [] p.lines⟩ := by
  have hclose : Text.TrimmedLine ")".toList := ⟨by simp, by decide, by decide⟩
  have htyped := h.declarable.toTrimmedLine.append h.plainType.toTrimmedLine
    (by decide : '\n' ∉ " (".toList)
  refine Dialect.readsAs_sectioned ?_ ?_ ?_ h.plainLines (fun rest => ?_) rfl
  · simpa using htyped.append hclose (by simp : '\n' ∉ [])
  · simpa using h.head?_ne_colon (" (".toList ++ p.typeName ++ ")".toList)
  · exact Section.ofWord?_eq_none_of_mem (c := '(') (by simp) (by decide)
  · simpa using Field.paramHead?_typed h.name_ne_nil h.nameChars h.plainType.trimmed
      h.plainType.closeParen? rest

theorem Plain.readsAs_underlined (h : p.Plain) (rule : Text) :
    (underlined rule).ReadsAs Field.paramHead? p
      ⟨p.name, p.typeName, Item.appendLines [] p.lines⟩ := by
  have hspaced := h.declarable.toTrimmedLine.append h.plainType.toTrimmedLine
    (by decide : '\n' ∉ " : ".toList)
  refine Dialect.readsAs_underlined hspaced ?_ ?_ ?_ h.plainLines
    (Field.paramHead?_spaced h.name_ne_nil h.nameChars h.plainType.trimmed) rfl
  · simpa using h.head?_ne_colon (" : ".toList ++ p.typeName)
  · rw [List.getLast?_append_of_ne_nil _ h.plainType.ne_nil]
    exact h.plainType.getLast?_ne_colon
  · exact Section.ofWord?_eq_none_of_mem (c := ':') (by simp) (by decide)

theorem Plain.isField (h : p.Plain) :
    fieldList.IsField .parameters p ∧
      (Block.field .parameters (fieldList.first p) (fieldList.more p)).params = [p.tag] := by
  have hdeclared : Field.Declarable (p.typeName ++ ' ' :: p.name) :=
    h.plainType.toDeclarable.spaced h.declarable
  have hsolid : ∀ c ∈ p.name, Text.isBlank c = false :=
    fun c hc => Field.not_isBlank_of_isNameChar (h.nameChars c hc)
  obtain ⟨hfield, hdeclaration⟩ : fieldList.IsField .parameters p ∧
      Block.declaration? (fieldList.first p) (fieldList.more p) =
        some (p.typeName ++ ' ' :: p.name, Item.appendLines [] p.lines) :=
    isField_fieldList Line.keyword_param hdeclared h.plainLines
  have hparam := Block.declaredParam_of_typed hsolid h.plainType.trimmed
    (Item.appendLines [] p.lines)
  refine ⟨hfield, ?_⟩
  simp only [Block.params, hdeclaration, Option.map_some, hparam]
  rfl

end Param

/-! ## Errors -/

/-- An error and the lines of its description. -/
structure Error where
  typeName : Text
  lines : List Text

namespace Error

def tag (e : Error) : TypedTag := ⟨e.typeName, Item.appendLines [] e.lines⟩

/-- Errors that can be documented in each dialect. -/
structure Plain (e : Error) : Prop where
  plainType : Field.PlainType e.typeName
  looksLikeType : Field.looksLikeType e.typeName = true
  word : Section.ofWord? e.typeName = none
  plainLines : ∀ l ∈ e.lines, PlainLine l

/-- `Raises:`, and `    type: description`. -/
def sectioned : Dialect Error := .sectioned "Raises".toList Error.typeName Error.lines

/-- `Raises` with a rule under it, and `type` above the description. -/
def underlined (rule : Text) : Dialect Error :=
  .underlined .raises rule Error.typeName Error.lines

/-- `:raises type: description`, or with the keyword `raise`. -/
def fieldList (keyword : Text) : Dialect Error := .fieldList keyword Error.typeName Error.lines

variable {e : Error}

theorem Plain.readsAs_sectioned (h : e.Plain) :
    sectioned.ReadsAs Field.errorHead? e ⟨[], e.typeName, Item.appendLines [] e.lines⟩ :=
  Dialect.readsAs_sectioned h.plainType.toTrimmedLine h.plainType.head?_ne_colon h.word h.plainLines
    (Field.errorHead?_of_delimitedType (h.plainType.delimitedType h.looksLikeType)) rfl

theorem Plain.readsAs_underlined (h : e.Plain) (rule : Text) :
    (underlined rule).ReadsAs Field.errorHead? e
      ⟨[], e.typeName, Item.appendLines [] e.lines⟩ :=
  Dialect.readsAs_underlined h.plainType.toTrimmedLine h.plainType.head?_ne_colon
    h.plainType.getLast?_ne_colon h.word h.plainLines (h.plainType.errorHead? h.looksLikeType) rfl

theorem Plain.isField (h : e.Plain) {keyword : Text}
    (hkeyword : keyword ∈ ["raise".toList, "raises".toList]) :
    (fieldList keyword).IsField .raises e ∧
      (Block.field .raises ((fieldList keyword).first e) ((fieldList keyword).more e)).errors =
        [e.tag] := by
  obtain ⟨hfield, hdeclaration⟩ : (fieldList keyword).IsField .raises e ∧
      Block.declaration? ((fieldList keyword).first e) ((fieldList keyword).more e) =
        some (e.typeName, Item.appendLines [] e.lines) :=
    isField_fieldList (Line.keyword_raises hkeyword) h.plainType.toDeclarable h.plainLines
  refine ⟨hfield, ?_⟩
  rw [Block.errors, hdeclaration]
  rfl

end Error

end Dialect

namespace Block

/-- The section to which a block belongs. -/
def kind : Block → Section
  | body k _ => k
  | field k _ _ => k

theorem eq_nil_of_kind (b : Block) : (b.kind ≠ .parameters → b.params = []) ∧
    (b.kind ≠ .returns → b.returned? = none) ∧ (b.kind ≠ .raises → b.errors = []) ∧
    (b.kind ≠ .examples → b.examples = []) := by
  cases b with
  | body k lines => cases k <;> simp [kind, params, returned?, errors, examples]
  | field k first continuation => cases k <;> simp [kind, params, returned?, errors, examples]

end Block

namespace Docstring

/-- Parameters and errors, and nothing else. -/
def ofTags (raw : Text) (params : List ParamTag) (raises : List TypedTag) : Docstring :=
  { raw, description := [], params, returns := none, raises, examples := [], exampleBlocks := [] }

/-- Nothing but parameters and errors is read from blocks of these sections. -/
theorem parse_eq_ofTags {s : Text} (hdescription : (parse s).description = [])
    (hkind : ∀ b ∈ (Block.gather (Line.ofText s)).2, b.kind = .parameters ∨ b.kind = .raises) :
    parse s = ofTags s ((Block.gather (Line.ofText s)).2.flatMap Block.params)
      ((Block.gather (Line.ofText s)).2.flatMap Block.errors) := by
  have hreturns : (Block.gather (Line.ofText s)).2.findSome? Block.returned? = none := by
    refine List.findSome?_eq_none_iff.mpr fun b hb => b.eq_nil_of_kind.2.1 ?_
    rcases hkind b hb with hk | hk <;> simp [hk]
  have hexamples : (Block.gather (Line.ofText s)).2.flatMap Block.examples = [] := by
    refine List.flatMap_eq_nil_iff.mpr fun b hb => b.eq_nil_of_kind.2.2.2 ?_
    rcases hkind b hb with hk | hk <;> simp [hk]
  simp only [parse] at hdescription ⊢
  simp only [hdescription, hreturns, hexamples, ofTags]
  rfl

theorem parse_of_body {s : Text} {k : Section} {body : List Line}
    (hk : k = .parameters ∨ k = .raises)
    (hgather : Block.gather (Line.ofText s) = ([], [.body k body])) :
    parse s = ofTags s (Block.body k body).params (Block.body k body).errors := by
  have hdescription : (parse s).description = [] := by
    simp only [parse, hgather]
    rfl
  rw [parse_eq_ofTags hdescription (by simpa [hgather, Block.kind] using hk), hgather,
    List.flatMap_singleton, List.flatMap_singleton]

theorem parse_of_fields {α : Type} {d : Dialect α} {items : List α} {s : Text} {k : Section}
    (hk : k = .parameters ∨ k = .raises) (hheader : d.header = [])
    (hitems : ∀ a ∈ items, d.IsField k a) (h : d.Writes items s) :
    parse s = ofTags s (items.flatMap fun a => (Block.field k (d.first a) (d.more a)).params)
      (items.flatMap fun a => (Block.field k (d.first a) (d.more a)).errors) := by
  obtain ⟨hblocks, hdescription⟩ := h.gather_fields hheader hitems
  rw [parse_eq_ofTags hdescription fun b hb => ?_, hblocks, List.flatMap_map, List.flatMap_map]
  rw [hblocks] at hb
  obtain ⟨a, -, rfl⟩ := List.mem_map.mp hb
  exact hk

/-! ## What is read in each dialect -/

section Reading

open Dialect

variable {s : Text}

theorem parse_of_param_body {d : Dialect Param} {items : List Param} (hopens : d.Opens .parameters)
    (hreads : ∀ p ∈ items,
      d.ReadsAs Field.paramHead? p ⟨p.name, p.typeName, Item.appendLines [] p.lines⟩)
    (h : d.Writes items s) : parse s = ofTags s (items.map Param.tag) [] := by
  obtain ⟨body, hgather, hcollect⟩ := h.gather_body hopens hreads
  have hparams : Item.params body = items.map Param.tag := by
    rw [Item.params, hcollect, List.map_map]
    rfl
  rw [parse_of_body (.inl rfl) hgather, Block.params, hparams]
  rfl

theorem parse_of_error_body {d : Dialect Dialect.Error} {items : List Dialect.Error}
    (hopens : d.Opens .raises)
    (hreads : ∀ e ∈ items,
      d.ReadsAs Field.errorHead? e ⟨[], e.typeName, Item.appendLines [] e.lines⟩)
    (h : d.Writes items s) : parse s = ofTags s [] (items.map Error.tag) := by
  obtain ⟨body, hgather, hcollect⟩ := h.gather_body hopens hreads
  have herrors : Item.errors body = items.map Error.tag := by
    rw [Item.errors, hcollect, List.map_map]
    rfl
  rw [parse_of_body (.inr rfl) hgather, Block.errors, herrors]
  rfl

theorem parse_of_param_fields {items : List Param} (hplain : ∀ p ∈ items, p.Plain)
    (h : Param.fieldList.Writes items s) : parse s = ofTags s (items.map Param.tag) [] := by
  rw [parse_of_fields (.inl rfl) rfl (fun p hp => (hplain p hp).isField.1) h,
    List.flatMap_congr fun p hp => (hplain p hp).isField.2, List.map_eq_flatMap]
  congr 1
  exact List.flatMap_eq_nil_iff.mpr fun p _ => rfl

theorem parse_of_error_fields {items : List Dialect.Error} (hplain : ∀ e ∈ items, e.Plain)
    {keyword : Text} (hkeyword : keyword ∈ ["raise".toList, "raises".toList])
    (h : (Error.fieldList keyword).Writes items s) :
    parse s = ofTags s [] (items.map Error.tag) := by
  rw [parse_of_fields (.inr rfl) rfl (fun e he => ((hplain e he).isField hkeyword).1) h,
    List.flatMap_congr fun e he => ((hplain e he).isField hkeyword).2, List.map_eq_flatMap]
  congr 1
  exact List.flatMap_eq_nil_iff.mpr fun e _ => rfl

/-- **The dialects agree.** In each of them all items are read, in order, and nothing else. -/
theorem parse_of_writes (rule : Text) (hrule : Line.isUnderline rule = true)
    (htrim : Text.trim rule = rule) :
    (∀ (items : List Param) (s : Text), (∀ p ∈ items, p.Plain) →
      Param.sectioned.Writes items s ∨ (Param.underlined rule).Writes items s ∨
        Param.fieldList.Writes items s →
      parse s = ofTags s (items.map Param.tag) []) ∧
    ∀ (items : List Dialect.Error) (s : Text), (∀ e ∈ items, e.Plain) →
      Error.sectioned.Writes items s ∨ (Error.underlined rule).Writes items s ∨
        (∃ keyword ∈ ["raise".toList, "raises".toList],
          (Error.fieldList keyword).Writes items s) →
      parse s = ofTags s [] (items.map Error.tag) := by
  constructor
  · rintro items s hplain (h | h | h)
    · exact parse_of_param_body (opens_sectioned (by decide) (by decide))
        (fun p hp => (hplain p hp).readsAs_sectioned) h
    · exact parse_of_param_body (opens_underlined hrule htrim .parameters)
        (fun p hp => (hplain p hp).readsAs_underlined rule) h
    · exact parse_of_param_fields hplain h
  · rintro items s hplain (h | h | ⟨keyword, hkeyword, h⟩)
    · exact parse_of_error_body (opens_sectioned (by decide) (by decide))
        (fun e he => (hplain e he).readsAs_sectioned) h
    · exact parse_of_error_body (opens_underlined hrule htrim .raises)
        (fun e he => (hplain e he).readsAs_underlined rule) h
    · exact parse_of_error_fields hplain hkeyword h

/-- A type with blanks, colons and parentheses, a description in which a line break falls into a
code span, and a parameter without a description. -/
def slices : List Param :=
  [⟨"xs".toList, "(S[1:2], T)".toList, ["in `a".toList, "b`:".toList]⟩,
    ⟨"*r".toList, "T".toList, []⟩]

/-- An error whose type has a blank. -/
def mismatch : List Dialect.Error := [⟨"E[a, b]".toList, ["if a:".toList]⟩]

theorem plain_slices : (∀ p ∈ slices, p.Plain) ∧ ∀ e ∈ mismatch, e.Plain := by
  have hline : ∀ l ∈ ["in `a".toList, "b`:".toList, "if a:".toList], PlainLine l := by
    rintro l (_ | ⟨_, _ | ⟨_, _ | ⟨_, _ | _⟩⟩⟩)
    · exact ⟨⟨by decide, by decide, by decide⟩, by decide, by decide, by decide⟩
    · exact ⟨⟨by decide, by decide, by decide⟩, by decide, by decide, by decide⟩
    · exact ⟨⟨by decide, by decide, by decide⟩, by decide, by decide, by decide⟩
  have htype : ∀ t ∈ ["(S[1:2], T)".toList, "T".toList, "E[a, b]".toList], Field.PlainType t := by
    rintro t (_ | ⟨_, _ | ⟨_, _ | ⟨_, _ | _⟩⟩⟩)
    · exact ⟨⟨⟨by decide, by decide, by decide⟩, by decide, by decide⟩, by decide, by decide⟩
    · exact ⟨⟨⟨by decide, by decide, by decide⟩, by decide, by decide⟩, by decide, by decide⟩
    · exact ⟨⟨⟨by decide, by decide, by decide⟩, by decide, by decide⟩, by decide, by decide⟩
  constructor
  · rintro p (_ | ⟨_, _ | ⟨_, _ | _⟩⟩)
    · exact ⟨by decide, List.all_eq_true.mp (by decide), htype _ (by simp),
        fun l hl => hline l (List.mem_append_left ["if a:".toList] hl)⟩
    · exact ⟨by decide, List.all_eq_true.mp (by decide), htype _ (by simp), by simp⟩
  · rintro e (_ | ⟨_, _ | _⟩)
    exact ⟨htype _ (by simp), by decide, by decide,
      fun l hl => hline l (List.mem_append_right ["in `a".toList, "b`:".toList] hl)⟩

theorem parse_of_writes_slices :
    (parse "Args:\n    xs ((S[1:2], T)): in `a\n      b`:\n    *r (T):".toList).params =
        [⟨"xs".toList, "(S[1:2], T)".toList, "in `a\nb`:".toList⟩, ⟨"*r".toList, "T".toList, []⟩] ∧
      (parse "Parameters\n---\nxs : (S[1:2], T)\n    in `a\n    b`:\n*r : T".toList).params =
        slices.map Param.tag ∧
      (parse ":param (S[1:2], T) xs: in `a\n  b`:\n:param T *r:".toList).params =
        slices.map Param.tag ∧
      (parse ":raises E[a, b]: if a:".toList).raises = [⟨"E[a, b]".toList, "if a:".toList⟩] := by
  obtain ⟨hparams, herrors⟩ := parse_of_writes "---".toList (by decide) (by decide)
  have hsectioned := hparams slices _ plain_slices.1
    (.inl (writes_render (n := 6) (by decide : 4 < 6) slices))
  have hunderlined := hparams slices _ plain_slices.1
    (.inr (.inl (writes_render (n := 4) (by decide : 0 < 4) slices)))
  have hfields := hparams slices _ plain_slices.1
    (.inr (.inr (writes_render (n := 2) (by decide : 0 < 2) slices)))
  have hraises := herrors mismatch _ plain_slices.2 (.inr (.inr ⟨"raises".toList, by simp,
    writes_render (n := 1) (by decide : 0 < 1) mismatch⟩))
  have htexts : "Args:\n    xs ((S[1:2], T)): in `a\n      b`:\n    *r (T):".toList =
        Param.sectioned.render 6 slices ∧
      "Parameters\n---\nxs : (S[1:2], T)\n    in `a\n    b`:\n*r : T".toList =
        (Param.underlined "---".toList).render 4 slices ∧
      ":param (S[1:2], T) xs: in `a\n  b`:\n:param T *r:".toList =
        Param.fieldList.render 2 slices ∧
      ":raises E[a, b]: if a:".toList = (Error.fieldList "raises".toList).render 1 mismatch := by
    decide +kernel
  obtain ⟨h₁, h₂, h₃, h₄⟩ := htexts
  rw [h₁, hsectioned, h₂, hunderlined, h₃, hfields, h₄, hraises]
  exact ⟨rfl, rfl, rfl, rfl⟩

end Reading

end Docstring

end ApiDocs
