import ApiDocs.Proofs.Docstring.ReadBack

/-!
# Writing a docstring and reading it again

A docstring that is in normal form is read back from its written form exactly if all it says can be
written. The normal form is what reading gives, so this says of any docstring whether it is read
back, and of any text whether reading, writing and reading once more gives the same.

* `Docstring.sameContent_iff`: what it means to say the same.
* `Docstring.Normal.parse_write_of_quiet`: a written docstring of which no item opens a section.
* `Docstring.Normal.quietItems_of_weight`: if reading loses no weight, no item opens a section.
* `Docstring.Normal.sameContent_parse_write`: a docstring in normal form is read back exactly if
  it can be written.
* `Docstring.parse_write_iff`, `Docstring.reparse_iff`: any docstring and any text.
-/

namespace ApiDocs

namespace Docstring

/-! ## The written sections -/

theorem sameContent_iff {d e : Docstring} : d.sameContent e = true ↔
    d.description = e.description ∧ d.params = e.params ∧ d.returns = e.returns ∧
      d.raises = e.raises ∧ d.examples = e.examples ∧ d.exampleBlocks = e.exampleBlocks := by
  simp [sameContent]

theorem entrySection_map {α : Type} (k : Section) (entry : α → Entry) (tags : List α) :
    entrySection k (tags.map entry) = if tags.isEmpty then []
      else [sectionBlock k
        (tags.map fun a => fieldLine (entry a).head (entry a).description)] := by
  simp only [entrySection, List.isEmpty_map, List.map_map]
  rfl

theorem writtenSections_eq (d : Docstring) : d.writtenSections =
    entrySection .parameters (d.params.map ParamTag.entry) ++
      entrySection .returns (d.returns.toList.map TypedTag.entry) ++
      entrySection .raises (d.raises.map TypedTag.entry) ++
      d.exampleBlocks.map fun b => sectionBlock .examples [exampleText b] := by
  have hreturns : d.returns.toList.map (fun r => sectionBlock .returns [typedLine r]) =
      entrySection .returns (d.returns.toList.map TypedTag.entry) := by
    cases d.returns <;> rfl
  rw [writtenSections, hreturns, entrySection_map .parameters, entrySection_map .raises]
  rfl

variable {d : Docstring}

theorem Normal.params_entries (h : d.Normal) : ∀ e ∈ d.params.map ParamTag.entry, e.Normal :=
  List.forall_mem_map.mpr fun p hp => (h.params p hp).entry

theorem Normal.returns_entries (h : d.Normal) :
    ∀ e ∈ d.returns.toList.map TypedTag.entry, e.Normal :=
  List.forall_mem_map.mpr fun t ht => (h.returns t (Option.mem_toList.mp ht)).entry

theorem Normal.raises_entries (h : d.Normal) : ∀ e ∈ d.raises.map TypedTag.entry, e.Normal :=
  List.forall_mem_map.mpr fun t ht => (h.raises t ht).entry

theorem Normal.quiet_description (h : d.Normal) : Line.Quiet (Line.split d.description) :=
  Line.forall_opens_classify_iff.mp h.description_quiet

/-- What is read from a written example block. -/
def exampleYield (b : ExampleBlock) : Block.Yield := ⟨[], none, [], [b.withoutReturns]⟩

theorem flatMap_exampleYield (bs : List ExampleBlock) :
    (bs.map exampleYield).flatMap (·.params) = [] ∧
      (bs.map exampleYield).findSome? (·.returned?) = none ∧
      (bs.map exampleYield).flatMap (·.errors) = [] ∧
      (bs.map exampleYield).flatMap (·.examples) = bs.map ExampleBlock.withoutReturns ∧
      ((bs.map exampleYield).map Block.Yield.weight).sum = 0 := by
  induction bs with
  | nil => simp
  | cons b bs ih =>
    obtain ⟨hp, hr, he, hx, hw⟩ := ih
    simp only [List.map_cons, List.flatMap_cons, List.findSome?_cons, List.sum_cons, hp, hr, he,
      hx, hw]
    exact ⟨rfl, rfl, rfl, rfl, rfl⟩

theorem Normal.yields_examples (h : d.Normal) :
    (d.exampleBlocks.map fun b => sectionBlock .examples [exampleText b]).flatMap yields =
      d.exampleBlocks.map exampleYield := by
  rw [List.flatMap_map, List.map_eq_flatMap]
  refine List.flatMap_congr fun b hb => ?_
  obtain ⟨hquiet, hblocks⟩ := Example.blocks_exampleText (h.exampleBlocks b hb)
  have hlines : [exampleText b].flatMap Line.split = Line.split (exampleText b) := by simp
  rw [yields_sectionBlock_of_quiet .examples (hlines.symm ▸ hquiet), hlines]
  simp [exampleYield, Block.yield, Block.params, Block.returned?, Block.errors, Block.examples,
    hblocks]

/-- What is read from a written docstring, section by section. -/
theorem Normal.yields_write (h : d.Normal) : yields d.write =
    (entrySection .parameters (d.params.map ParamTag.entry)).flatMap yields ++
      (entrySection .returns (d.returns.toList.map TypedTag.entry)).flatMap yields ++
      (entrySection .raises (d.raises.map TypedTag.entry)).flatMap yields ++
      d.exampleBlocks.map exampleYield := by
  rw [(Docstring.yields_write h.quiet_description).1, writtenSections_eq, List.flatMap_append,
    List.flatMap_append, List.flatMap_append, h.yields_examples]

/-! ## Items that open nothing -/

/-- Nothing in the written items opens a section or a field. -/
structure QuietItems (d : Docstring) : Prop where
  params : Line.Quiet ((d.params.map ParamTag.entry).flatMap Entry.lines)
  returns : Line.Quiet ((d.returns.toList.map TypedTag.entry).flatMap Entry.lines)
  raises : Line.Quiet ((d.raises.map TypedTag.entry).flatMap Entry.lines)

/-- What is read from a written docstring of which no item opens anything. -/
theorem Normal.parse_write_of_quiet (h : d.Normal) (hquiet : d.QuietItems) :
    (parse d.write).description =
        Text.trim ("\n".toList.intercalate (Line.split d.description)) ∧
      (parse d.write).params =
        Item.params (Line.classify ((d.params.map ParamTag.entry).flatMap Entry.lines)) ∧
      (parse d.write).returns =
        Item.returned? (Line.classify
          ((d.returns.toList.map TypedTag.entry).flatMap Entry.lines)) ∧
      (parse d.write).raises =
        Item.errors (Line.classify ((d.raises.map TypedTag.entry).flatMap Entry.lines)) ∧
      (parse d.write).exampleBlocks = d.exampleBlocks.map ExampleBlock.withoutReturns := by
  obtain ⟨hxp, hxr, hxe, hxx, -⟩ := flatMap_exampleYield d.exampleBlocks
  obtain ⟨hp, hpr, hpe, hpx⟩ :=
    entrySection_of_quiet (k := .parameters) h.params_entries hquiet.params
  obtain ⟨hr, hrr, hre, hrx⟩ :=
    entrySection_of_quiet (k := .returns) h.returns_entries hquiet.returns
  obtain ⟨he, her, hee, hex⟩ :=
    entrySection_of_quiet (k := .raises) h.raises_entries hquiet.raises
  refine ⟨(Docstring.yields_write h.quiet_description).2, ?_, ?_, ?_, ?_⟩
  · rw [congrArg Docstring.params (parse_eq d.write), h.yields_write]
    simp only [List.flatMap_append, hp, hr, he, hxp]
    simp [Block.params]
  · rw [congrArg Docstring.returns (parse_eq d.write), h.yields_write]
    simp only [List.findSome?_append, hpr, hrr, her, hxr]
    simp [Block.returned?]
  · rw [congrArg Docstring.raises (parse_eq d.write), h.yields_write]
    simp only [List.flatMap_append, hpe, hre, hee, hxe]
    simp [Block.errors]
  · rw [congrArg Docstring.exampleBlocks (parse_eq d.write), h.yields_write]
    simp only [List.flatMap_append, hpx, hrx, hex, hxx]
    simp [Block.examples]

theorem quiet_of_countP {xs : List Text} (h : (Line.classify xs).countP (·.opens) = 0) :
    Line.Quiet xs := by
  rw [List.countP_eq_zero] at h
  exact Line.forall_opens_classify_iff.mp fun l hl => by simpa using h l hl

/-- Nothing in the items opens a section or a field if reading loses no weight. -/
theorem Normal.quietItems_of_weight (h : d.Normal) (hweight : d.weight ≤ (parse d.write).weight) :
    d.QuietItems := by
  have hread := weight_parse_le d.write
  obtain ⟨-, -, -, -, hexamples⟩ := flatMap_exampleYield d.exampleBlocks
  have hp := weight_entrySection_le (k := .parameters) h.params_entries
  have hr := weight_entrySection_le (k := .returns) h.returns_entries
  have he := weight_entrySection_le (k := .raises) h.raises_entries
  have hpw : (d.params.map ParamTag.entry).map Entry.weight = d.params.map ParamTag.weight := by
    rw [List.map_map]
    exact List.map_congr_left fun p _ => p.weight_entry
  have htw : ∀ ts : List TypedTag,
      (ts.map TypedTag.entry).map Entry.weight = ts.map TypedTag.weight := by
    intro ts
    rw [List.map_map]
    exact List.map_congr_left fun t _ => t.weight_entry
  rw [hpw] at hp
  rw [htw] at hr he
  rw [h.yields_write, List.map_append, List.map_append, List.map_append, List.sum_append,
    List.sum_append, List.sum_append, hexamples] at hread
  rw [Docstring.weight] at hweight
  exact ⟨quiet_of_countP (by omega), quiet_of_countP (by omega), quiet_of_countP (by omega)⟩

theorem Normal.quietItems_iff (h : d.Normal) : d.QuietItems ↔
    (∀ p ∈ d.params, Line.Quiet p.entry.lines) ∧ (∀ t ∈ d.returns, Line.Quiet t.entry.lines) ∧
      ∀ t ∈ d.raises, Line.Quiet t.entry.lines := by
  have hp := Entry.quiet_flatMap_lines_iff h.params_entries
  have hr := Entry.quiet_flatMap_lines_iff h.returns_entries
  have he := Entry.quiet_flatMap_lines_iff h.raises_entries
  simp only [List.forall_mem_map, Option.mem_toList] at hp hr he
  constructor
  · rintro ⟨h1, h2, h3⟩
    exact ⟨hp.mp h1, hr.mp h2, he.mp h3⟩
  · rintro ⟨h1, h2, h3⟩
    exact ⟨hp.mpr h1, hr.mpr h2, he.mpr h3⟩

/-! ## Reading back -/

/-- What can be written opens nothing by itself. -/
theorem Normal.quietItems_of_writable (h : d.Normal) (hw : d.Writable) : d.QuietItems := by
  refine h.quietItems_iff.mpr ⟨fun p hp => ?_, fun t ht => ?_, fun t ht => ?_⟩
  · have hpw := hw.params p hp
    exact (ParamTag.quiet_lines_iff (h.params p hp) hpw.name).mpr ⟨hpw.no_header, hpw.later_text⟩
  · have htw := hw.returns t ht
    exact (TypedTag.quiet_lines_iff (h.returns t ht)).mpr ⟨htw.head_text, htw.later_text⟩
  · have htw := hw.raises t ht
    exact (TypedTag.quiet_lines_iff (h.raises t ht)).mpr ⟨htw.head_text, htw.later_text⟩

theorem map_withoutReturns_eq_iff {bs : List ExampleBlock} :
    bs.map ExampleBlock.withoutReturns = bs ↔ ∀ b ∈ bs, b.Writable := by
  conv_lhs => rhs; rw [← List.map_id bs]
  rw [List.map_inj_left]
  exact forall₂_congr fun b _ => ExampleBlock.withoutReturns_eq_iff

/-- A docstring in normal form is read back exactly if it can be written. -/
theorem Normal.sameContent_parse_write (h : d.Normal) :
    (parse d.write).sameContent d = true ↔ d.Writable := by
  have hjoin := (normal_parse d.write).examples
  rw [sameContent_iff]
  constructor
  · rintro ⟨hdesc, hparams, hreturns, hraises, -, hblocks⟩
    have hquiet : d.QuietItems := h.quietItems_of_weight <| by
      rw [Docstring.weight, Docstring.weight, hparams, hreturns, hraises]
    obtain ⟨hd, hp, hr, he, hb⟩ := h.parse_write_of_quiet hquiet
    obtain ⟨hpq, hrq, heq⟩ := h.quietItems_iff.mp hquiet
    have hpw := (Item.params_lines_iff h.params hquiet.params).mp (hp.symm.trans hparams)
    have hrw := (Item.returned?_lines_iff h.returns hquiet.returns).mp (hr.symm.trans hreturns)
    have hew := (Item.errors_lines_iff h.raises hquiet.raises).mp (he.symm.trans hraises)
    refine ⟨?_, fun p hp => ?_, fun t ht => ?_, fun t ht => ?_, ?_⟩
    · exact (Line.trim_intercalate_split_eq_iff h.description_trimmed).mp (hd.symm.trans hdesc)
    · obtain ⟨hname, hclose⟩ := hpw p hp
      obtain ⟨hheader, htext⟩ := (ParamTag.quiet_lines_iff (h.params p hp) hname).mp (hpq p hp)
      exact ⟨hname, hclose, htext, hheader⟩
    · obtain ⟨hhead, htext⟩ := (TypedTag.quiet_lines_iff (h.returns t ht)).mp (hrq t ht)
      exact ⟨hrw t ht, htext, hhead⟩
    · obtain ⟨hhead, htext⟩ := (TypedTag.quiet_lines_iff (h.raises t ht)).mp (heq t ht)
      exact ⟨hew t ht, htext, hhead⟩
    · exact map_withoutReturns_eq_iff.mp (hb.symm.trans hblocks)
  · intro hw
    have hquiet := h.quietItems_of_writable hw
    obtain ⟨hd, hp, hr, he, hb⟩ := h.parse_write_of_quiet hquiet
    have hblocks : (parse d.write).exampleBlocks = d.exampleBlocks :=
      hb.trans (map_withoutReturns_eq_iff.mpr hw.exampleBlocks)
    refine ⟨?_, ?_, ?_, ?_, ?_, hblocks⟩
    · exact hd.trans
        ((Line.trim_intercalate_split_eq_iff h.description_trimmed).mpr hw.description)
    · exact hp.trans ((Item.params_lines_iff h.params hquiet.params).mpr
        fun p hp => ⟨(hw.params p hp).name, (hw.params p hp).type_closed⟩)
    · exact hr.trans ((Item.returned?_lines_iff h.returns hquiet.returns).mpr
        fun t ht => (hw.returns t ht).type_delimited)
    · exact he.trans ((Item.errors_lines_iff h.raises hquiet.raises).mpr
        fun t ht => (hw.raises t ht).type_delimited)
    · rw [hjoin, hblocks, h.examples]

theorem Normal.of_sameContent {e : Docstring} (h : e.Normal) (hsame : e.sameContent d = true) :
    d.Normal := by
  obtain ⟨hdesc, hparams, hreturns, hraises, hexamples, hblocks⟩ := sameContent_iff.mp hsame
  exact ⟨hdesc ▸ h.description_trimmed, hdesc ▸ h.description_quiet, hparams ▸ h.params,
    hreturns ▸ h.returns, hraises ▸ h.raises, hblocks ▸ h.exampleBlocks,
    hexamples ▸ hblocks ▸ h.examples⟩

/-- **Which docstrings are read back.** A docstring is read back from its written form, with every
field but the text that was read, exactly if it is in normal form and can be written. -/
theorem parse_write_iff (d : Docstring) :
    (parse d.write).sameContent d = true ↔ d.Normal ∧ d.Writable := by
  constructor
  · intro hsame
    have hnormal := (normal_parse d.write).of_sameContent hsame
    exact ⟨hnormal, hnormal.sameContent_parse_write.mp hsame⟩
  · rintro ⟨hnormal, hw⟩
    exact hnormal.sameContent_parse_write.mpr hw

/-- **Which texts are read the same once written.** What is read from a text is read back from its
written form exactly if it can be written; nothing else is asked of the text. -/
theorem reparse_iff (s : Text) :
    (parse (parse s).write).sameContent (parse s) = true ↔ (parse s).Writable :=
  (normal_parse s).sameContent_parse_write

/-- The name of a field need not be a name of an item: the parameter of this text is lost. -/
theorem reparse_field_name :
    (parse (parse ":param a-b: x".toList).write).sameContent (parse ":param a-b: x".toList) =
      false := by
  decide

end Docstring

end ApiDocs
