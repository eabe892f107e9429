import ApiDocs.Proofs.Docstring.Blocks
import ApiDocs.Proofs.Docstring.Description
import ApiDocs.Proofs.Docstring.ExampleCode
import ApiDocs.Proofs.Docstring.FieldDeclaration

/-!
# What every docstring that is read is like

Reading brings a docstring into a normal form: the description, the types and the lines of
descriptions are trimmed, nothing in the description or in example code opens a section, and
code has no margin.

* `ParamTag.Normal`, `TypedTag.Normal`, `ExampleBlock.Normal`, `Docstring.Normal`: the normal form.
* `Item.forall_mem_collectLines`: what all items of a body have in common.
* `Docstring.normal_parse`: every docstring that is read is in normal form.
-/

namespace ApiDocs

open scoped List

/-! ## The normal form -/

/-- The type is trimmed and on one line, and the description is put together from lines. -/
structure TypedTag.Normal (t : TypedTag) : Prop where
  type_trimmed : Text.trim t.typeName = t.typeName
  type_line : '\n' ∉ t.typeName
  description : t.description = [] ∨ Item.Joined t.description

/-- Type and description are in normal form, and the name is one word. -/
structure ParamTag.Normal (p : ParamTag) : Prop where
  name_ne_nil : p.name ≠ []
  name_solid : ∀ c ∈ p.name, Text.isBlank c = false
  typed : TypedTag.Normal ⟨p.typeName, p.description⟩

/-- There is code, it has no margin, nothing in it opens a section or another code block, and
the language is a trimmed text on one line. -/
structure ExampleBlock.Normal (b : ExampleBlock) : Prop where
  code_ne_nil : b.code ≠ []
  code_dedented : Example.dedent (b.code.splitOn '\n') = b.code
  code_quiet : ∀ l ∈ Line.ofText b.code, l.opens = false
  code_undirected : ∀ l ∈ b.code.splitOn '\n', Example.directive? l = none
  language : ∀ lang ∈ b.language, lang ≠ [] ∧ Text.trim lang = lang ∧ '\n' ∉ lang

/-- The description is trimmed and nothing in it opens a section or a field, every documented
thing is in normal form, and the example code is that of all blocks. -/
structure Docstring.Normal (d : Docstring) : Prop where
  description_trimmed : Text.trim d.description = d.description
  description_quiet : ∀ l ∈ Line.ofText d.description, l.opens = false
  params : ∀ p ∈ d.params, p.Normal
  returns : ∀ t ∈ d.returns, t.Normal
  raises : ∀ t ∈ d.raises, t.Normal
  exampleBlocks : ∀ b ∈ d.exampleBlocks, b.Normal
  examples : d.examples = joinExamples d.exampleBlocks

/-! ## Lines -/

namespace Line

theorem quiet_split_iff {s : Text} : Quiet (split s) ↔ Quiet (s.splitOn '\n') := by
  have hsame : (split s).map Text.trim = (s.splitOn '\n').map Text.trim := by
    simp [split, Function.comp_def]
  rw [← quiet_map_trim, hsame, quiet_map_trim]

/-- Nothing in a text opens a section or a field exactly if its lines are quiet. -/
theorem forall_opens_ofText_iff {s : Text} :
    (∀ l ∈ ofText s, l.opens = false) ↔ Quiet (s.splitOn '\n') := by
  rw [ofText, forall_opens_classify_iff, quiet_split_iff]

theorem newline_not_mem_of_mem_split {s l : Text} (h : l ∈ split s) : '\n' ∉ l := by
  obtain ⟨m, hm, rfl⟩ := List.mem_map.mp h
  exact fun hnl => Text.newline_not_mem_of_mem_splitOn hm (mem_of_mem_dropReturn hnl)

theorem trimmed_spec {zs : List Text} (hzs : ∀ s ∈ zs, '\n' ∉ s) {l : Line}
    (hl : l ∈ (classify zs).filter (!·.isBlank)) :
    Text.blank l.trimmed = false ∧ Text.trim l.trimmed = l.trimmed ∧ '\n' ∉ l.trimmed := by
  obtain ⟨hmem, hb⟩ := List.mem_filter.mp hl
  have hkind : l.kind ≠ .blank := by simpa [isBlank] using hb
  have hblank : Text.blank l.text = false := by
    rw [ne_eq, (kind_spec hmem).1] at hkind
    simpa using hkind
  refine ⟨by simpa [trimmed] using hblank, Text.trim_trim _, fun hnl => ?_⟩
  exact hzs l.text (text_mem_of_mem_classify hmem) (Text.mem_of_mem_trim hnl)

end Line

/-! ## Items -/

theorem TypedTag.Normal.appendLine {t : TypedTag} (h : t.Normal) {l : Text}
    (hl : Text.blank l = false ∧ Text.trim l = l ∧ '\n' ∉ l) :
    TypedTag.Normal ⟨t.typeName, Item.appendLine t.description l⟩ :=
  ⟨h.type_trimmed, h.type_line,
    Item.joined_appendLines h.description (List.forall_mem_singleton.mpr hl)⟩

/-- A trimmed part of a line is a description. -/
theorem Item.joined_of_sublist {d s : Text} (ht : Text.trim d = d) (hsub : d <+ s)
    (hs : '\n' ∉ s) : d = [] ∨ Joined d := by
  by_cases hne : d = []
  · exact .inl hne
  · exact .inr (joined_of_line (Text.blank_eq_false_of_trimmed ht hne) ht
      fun hnl => hs (hsub.subset hnl))

namespace Item

variable {head? : Text → Option Field.Head} {P : Field.Head → Prop} {lines : List Line}

theorem forall_mem_collectFrom
    (hhead : ∀ l ∈ lines, ∀ h, head? l.trimmed = some h → P h)
    (hmore : ∀ h, P h → ∀ l ∈ lines,
      P { h with description := appendLine h.description l.trimmed })
    {item : Item} (hitem : P item.head) : ∀ i ∈ collectFrom head? item lines, P i.head := by
  fun_induction collectFrom head? item lines with
  | case1 item => simpa using hitem
  | case2 item l rest hdeep ih =>
    refine ih (fun m hm => hhead m (List.mem_cons_of_mem _ hm))
      (fun h hh m hm => hmore h hh m (List.mem_cons_of_mem _ hm)) ?_
    exact hmore _ hitem l List.mem_cons_self
  | case3 item l rest hdeep head hsome ih =>
    intro i hi
    rcases List.mem_cons.mp hi with rfl | hi
    · exact hitem
    · exact ih (fun m hm => hhead m (List.mem_cons_of_mem _ hm))
        (fun h hh m hm => hmore h hh m (List.mem_cons_of_mem _ hm))
        (hhead l List.mem_cons_self head hsome) i hi
  | case4 item l rest hdeep hnone =>
    -- all lines from here on continue the item
    have hfold : ∀ (ms : List Line) (j : Item), (∀ m ∈ ms, m ∈ l :: rest) → P j.head →
        P (ms.foldl continued j).head := by
      intro ms
      induction ms with
      | nil => exact fun j _ hj => hj
      | cons m ms ih =>
        intro j hms hj
        exact ih _ (fun x hx => hms x (List.mem_cons_of_mem _ hx))
          (hmore _ hj m (hms m List.mem_cons_self))
    intro i hi
    rw [List.mem_singleton.mp hi]
    exact hfold rest _ (fun m hm => List.mem_cons_of_mem _ hm)
      (hmore _ hitem l List.mem_cons_self)

/-- What heads have and further lines keep, every item of a body has. -/
theorem forall_mem_collectLines
    (hhead : ∀ l ∈ lines, ∀ h, head? l.trimmed = some h → P h)
    (hmore : ∀ h, P h → ∀ l ∈ lines,
      P { h with description := appendLine h.description l.trimmed }) :
    ∀ i ∈ collectLines head? lines, P i.head := by
  fun_induction collectLines head? lines with
  | case1 => simp
  | case2 l rest head hsome =>
    exact forall_mem_collectFrom (fun m hm => hhead m (List.mem_cons_of_mem _ hm))
      (fun h hh m hm => hmore h hh m (List.mem_cons_of_mem _ hm))
      (hhead l List.mem_cons_self head hsome)
  | case3 l rest hnone ih =>
    exact ih (fun m hm => hhead m (List.mem_cons_of_mem _ hm))
      (fun h hh m hm => hmore h hh m (List.mem_cons_of_mem _ hm))

end Item

/-! ## Blocks -/

namespace Block

variable {xs : List Text} {b : Block}

theorem normal_declaration? {s : Text} {k : Section} {zs : List Text} (hs : '\n' ∉ s)
    (hzs : ∀ z ∈ zs, '\n' ∉ z) (hk : Line.fieldSection? s = some k) {declared description : Text}
    (h : declaration? (Text.trim s) ((zs.takeWhile (!Text.blank ·)).map Text.trim) =
      some (declared, description)) :
    TypedTag.Normal ⟨declared, description⟩ ∧ (k = .parameters → declared ≠ []) := by
  obtain ⟨declared', inline, hdecl, hdt, hit, ⟨c, -, hsub⟩, hne⟩ := declaration?_spec hk
  cases h.symm.trans (hdecl _)
  have hline : '\n' ∉ Text.trim s := fun hnl => hs (Text.mem_of_mem_trim hnl)
  have hparts : declared ++ inline <+ Text.trim s := (List.sublist_cons_self _ _).trans hsub
  refine ⟨⟨hdt, fun hnl => hline (hparts.subset (List.mem_append_left _ hnl)), ?_⟩, hne⟩
  have hinline : inline = [] ∨ Item.Joined inline :=
    Item.joined_of_sublist hit ((List.sublist_append_right _ _).trans hparts) hline
  refine Item.joined_appendLines hinline fun l hl => ?_
  obtain ⟨z, hz, rfl⟩ := List.mem_map.mp hl
  have hblank := List.mem_takeWhile_imp hz
  exact ⟨by simpa using hblank, Text.trim_trim z,
    fun hnl => hzs z ((List.takeWhile_sublist _).subset hz) (Text.mem_of_mem_trim hnl)⟩

theorem normal_of_mem_params (hxs : ∀ s ∈ xs, '\n' ∉ s) (hb : MadeFrom xs b) :
    ∀ p ∈ b.params, p.Normal := by
  intro p hp
  cases hb with
  | @body k zs inRow quiet =>
    have hzs : ∀ s ∈ zs, '\n' ∉ s := fun s hs => hxs s (inRow.subset hs)
    cases k with
    | parameters =>
      obtain ⟨i, hi, rfl⟩ := List.mem_map.mp hp
      refine Item.forall_mem_collectLines
        (P := fun h => ParamTag.Normal ⟨h.name, h.typeName, h.description⟩) ?_ ?_ i hi
      · intro l hl h hh
        obtain ⟨-, ht, hnl⟩ := Line.trimmed_spec hzs hl
        obtain ⟨hne, hchars, htype, hdesc, hsub⟩ := Field.paramHead?_spec hh
        have htypeSub : h.typeName <+ l.trimmed :=
          (List.sublist_append_right h.name _).trans ((List.sublist_append_left _ _).trans hsub)
        exact ⟨hne, fun c hc => Field.not_isBlank_of_isNameChar (hchars c hc), htype,
          fun hmem => hnl (htypeSub.subset hmem),
          Item.joined_of_sublist hdesc ((List.sublist_append_right _ _).trans hsub) hnl⟩
      · intro h hh l hl
        exact ⟨hh.name_ne_nil, hh.name_solid, hh.typed.appendLine (Line.trimmed_spec hzs hl)⟩
    | returns | raises | examples => simp [params] at hp
  | @field k s zs first inRow declares quiet =>
    cases k with
    | parameters =>
      simp only [params, Option.mem_toList, Option.map_eq_some_iff] at hp
      obtain ⟨⟨declared, description⟩, hdecl, rfl⟩ := hp
      obtain ⟨hnormal, hne⟩ := normal_declaration? (hxs s first)
        (fun z hz => hxs z (inRow.subset hz)) declares hdecl
      obtain ⟨hname, hsolid, htype, hsub, hdesc⟩ :=
        declaredParam_spec hnormal.type_trimmed (hne rfl) description
      refine ⟨hname, hsolid, htype, fun hmem => hnormal.type_line ?_, ?_⟩
      · exact hsub.subset (List.mem_append_left _ hmem)
      · rw [hdesc]
        exact hnormal.description
    | returns | raises | examples => simp [params] at hp

theorem normal_of_mem_errors (hxs : ∀ s ∈ xs, '\n' ∉ s) (hb : MadeFrom xs b) :
    ∀ t ∈ b.errors, t.Normal := by
  intro t ht
  cases hb with
  | @body k zs inRow quiet =>
    have hzs : ∀ s ∈ zs, '\n' ∉ s := fun s hs => hxs s (inRow.subset hs)
    cases k with
    | raises =>
      obtain ⟨i, hi, rfl⟩ := List.mem_map.mp ht
      refine Item.forall_mem_collectLines
        (P := fun h => TypedTag.Normal ⟨h.typeName, h.description⟩) ?_ ?_ i hi
      · intro l hl h hh
        obtain ⟨-, ht, hnl⟩ := Line.trimmed_spec hzs hl
        obtain ⟨-, htype, hdesc, hsub⟩ := Field.errorHead?_spec hh ht
        exact ⟨htype, fun hmem => hnl (hsub.subset (List.mem_append_left _ hmem)),
          Item.joined_of_sublist hdesc ((List.sublist_append_right _ _).trans hsub) hnl⟩
      · intro h hh l hl
        exact hh.appendLine (Line.trimmed_spec hzs hl)
    | parameters | returns | examples => simp [errors] at ht
  | @field k s zs first inRow declares quiet =>
    cases k with
    | raises =>
      simp only [errors, Option.mem_toList, Option.map_eq_some_iff] at ht
      obtain ⟨⟨declared, description⟩, hdecl, rfl⟩ := ht
      exact (normal_declaration? (hxs s first) (fun z hz => hxs z (inRow.subset hz)) declares
        hdecl).1
    | parameters | returns | examples => simp [errors] at ht

theorem normal_of_returned? (hxs : ∀ s ∈ xs, '\n' ∉ s) (hb : MadeFrom xs b) :
    ∀ t ∈ b.returned?, t.Normal := by
  intro t ht
  cases hb with
  | @body k zs inRow quiet =>
    have hzs : ∀ s ∈ zs, '\n' ∉ s := fun s hs => hxs s (inRow.subset hs)
    cases k with
    | returns =>
      have hlines : ∀ l ∈ ((Line.classify zs).filter (!·.isBlank)).map (·.trimmed),
          Text.blank l = false ∧ Text.trim l = l ∧ '\n' ∉ l := by
        intro l hl
        obtain ⟨m, hm, rfl⟩ := List.mem_map.mp hl
        exact Line.trimmed_spec hzs hm
      simp only [returned?, Item.returned?, Option.mem_def] at ht
      split at ht
      · cases ht
      · rename_i first more hsplit
        cases ht
        rw [hsplit] at hlines
        obtain ⟨-, hft, hfnl⟩ := hlines first List.mem_cons_self
        obtain ⟨htype, hdesc, hsub⟩ := Item.returnedHead_spec hft
        refine ⟨htype, fun hmem => hfnl (hsub.subset (List.mem_append_left _ hmem)), ?_⟩
        exact Item.joined_appendLines
          (Item.joined_of_sublist hdesc ((List.sublist_append_right _ _).trans hsub) hfnl)
          fun l hl => hlines l (List.mem_cons_of_mem _ hl)
    | parameters | raises | examples => simp [returned?] at ht
  | @field k s zs first inRow declares quiet =>
    cases k with
    | returns =>
      simp only [returned?, Option.mem_def, Option.map_eq_some_iff] at ht
      obtain ⟨⟨declared, description⟩, hdecl, rfl⟩ := ht
      exact (normal_declaration? (hxs s first) (fun z hz => hxs z (inRow.subset hz)) declares
        hdecl).1
    | parameters | raises | examples => simp [returned?] at ht

theorem normal_of_mem_examples (hxs : ∀ s ∈ xs, '\n' ∉ s) (hb : MadeFrom xs b) :
    ∀ e ∈ b.examples, e.Normal := by
  intro e he
  cases hb with
  | @field k s zs first inRow declares quiet => simp [examples] at he
  | @body k zs inRow quiet =>
    cases k with
    | parameters | returns | raises => simp [examples] at he
    | examples =>
      obtain ⟨hne, ⟨ls, hrow, hnone, hcode⟩, hlang⟩ := Example.exists_of_mem_blocks he
      rw [Line.map_text_classify] at hrow hlang
      have hls : ∀ l ∈ ls, '\n' ∉ l := fun l hl => hxs l (inRow.subset (hrow.subset hl))
      have hlines : e.code.splitOn '\n' = Example.dedentedLines ls := by
        rw [hcode, Example.splitOn_dedent hls (hcode ▸ hne)]
      have htrims : (Example.dedentedLines ls).map Text.trim <:+: ls.map Text.trim := by
        rw [Example.map_trim_dedentedLines]
        exact (strip_isInfix ls).map _
      refine ⟨hne, ?_, ?_, ?_, ?_⟩
      · rw [hlines, Example.dedent_of_dedented (Example.dedented_dedentedLines ls), hcode,
          Example.dedent_eq]
      · rw [Line.forall_opens_ofText_iff, hlines]
        exact (quiet.of_isInfix hrow).of_isInfix_map_trim htrims
      · intro l hl
        rw [hlines] at hl
        have hmem : Text.trim l ∈ ls.map Text.trim := htrims.subset (List.mem_map_of_mem hl)
        obtain ⟨m, hm, hsame⟩ := List.mem_map.mp hmem
        rw [← Example.directive?_trim, ← hsame, Example.directive?_trim, hnone m hm]
      · intro lang hmem
        rw [Option.mem_def] at hmem
        rcases hlang with h | ⟨s, hs, h⟩
        · simp [h] at hmem
        · exact Example.language_of_directive? (hxs s (inRow.subset hs)) (hmem ▸ h)

end Block

/-! ## Docstrings -/

namespace Docstring

/-- The description of a docstring that is read is trimmed and quiet. -/
theorem description_parse_quiet (s : Text) :
    Text.trim (parse s).description = (parse s).description ∧
      ∀ l ∈ Line.ofText (parse s).description, l.opens = false := by
  refine ⟨Text.trim_trim _, ?_⟩
  obtain ⟨zs, hzs, hquiet, hfst⟩ := Block.fst_gather_classify (Line.split s)
  have hdesc : (parse s).description = Text.trim ("\n".toList.intercalate zs) := by
    simp only [parse, Line.ofText, hfst, Line.map_text_classify]
  rw [Line.forall_opens_ofText_iff, hdesc]
  have htrims := Text.map_trim_splitOn_trim ("\n".toList.intercalate zs)
  by_cases hnil : zs = []
  · rw [hnil]
    exact ⟨by decide, by decide⟩
  · have hjoin : ("\n".toList.intercalate zs).splitOn '\n' = zs :=
      List.splitOn_intercalate _
        (fun l hl => Line.newline_not_mem_of_mem_split (hzs.subset hl)) hnil
    rw [hjoin] at htrims
    exact hquiet.of_isInfix_map_trim htrims

/-- **Every docstring that is read is in normal form.** -/
theorem normal_parse (s : Text) : (parse s).Normal := by
  have hlines : ∀ l ∈ Line.split s, '\n' ∉ l := fun l hl => Line.newline_not_mem_of_mem_split hl
  have hmade : ∀ b ∈ (Block.gather (Line.ofText s)).2, Block.MadeFrom (Line.split s) b :=
    fun b hb => Block.madeFrom_of_mem_gather hb
  obtain ⟨htrim, hquiet⟩ := description_parse_quiet s
  refine ⟨htrim, hquiet, ?_, ?_, ?_, ?_, rfl⟩
  · intro p hp
    obtain ⟨b, hb, hp⟩ := List.mem_flatMap.mp hp
    exact Block.normal_of_mem_params hlines (hmade b hb) p hp
  · intro t ht
    obtain ⟨b, hb, ht⟩ := List.exists_of_findSome?_eq_some ht
    exact Block.normal_of_returned? hlines (hmade b hb) t ht
  · intro t ht
    obtain ⟨b, hb, ht⟩ := List.mem_flatMap.mp ht
    exact Block.normal_of_mem_errors hlines (hmade b hb) t ht
  · intro e he
    obtain ⟨b, hb, he⟩ := List.mem_flatMap.mp he
    exact Block.normal_of_mem_examples hlines (hmade b hb) e he

end Docstring

end ApiDocs
