import ApiDocs.Proofs.Docstring.Weight
import ApiDocs.Proofs.Docstring.Writable

/-!
# Written sections, read back

When nothing in a written section opens another, its items are read back as they were exactly if
each of them can be written. For one direction the items are read one by one. For the other, an
item that is not read is missed: if it is the first, its line is dropped and its weight is lost,
and if it is a later one, it is taken into the item before it and there are too few items.

* `Docstring.Entry.collectLines_eq_of_weight`: items are read one by one if nothing is lost.
* `Item.params_lines_iff`, `Item.errors_lines_iff`, `Item.returned?_lines_iff`: sections of items.
* `Line.intercalate_split_eq_iff`: lines that no carriage return ends are put together again.
* `Example.blocks_exampleText`: a written example block.
-/

namespace ApiDocs

open scoped List

/-! ## Items -/

theorem ParamTag.weight_entry (p : ParamTag) : p.entry.weight = p.weight := by
  have hopen : Text.ink " (".toList = 0 := by decide
  have hclose : Text.ink "):".toList = 0 := by decide
  have hcolon : Text.ink ":".toList = 0 := by decide
  unfold ParamTag.entry Docstring.Entry.weight ParamTag.weight
  by_cases ht : p.typeName = []
  · simp only [ht, List.isEmpty_nil, if_true, Text.ink_append, hcolon, Text.ink_nil]
  · simp only [List.isEmpty_eq_false_iff.mpr ht, Bool.false_eq_true, if_false, Text.ink_append,
      hopen, hclose, Nat.add_zero]

theorem TypedTag.weight_entry (t : TypedTag) : t.entry.weight = t.weight := by
  have hcolon : Text.ink ":".toList = 0 := by decide
  simp only [TypedTag.entry, Docstring.Entry.weight, TypedTag.weight, Text.ink_append, hcolon,
    Nat.add_zero]

namespace Docstring

/-- Weight is lost if the first head cannot be read: its line is dropped. -/
theorem Entry.weight_collectLines_lt {head? : Text → Option Field.Head}
    (hhead : ∀ s h, head? (Text.trim s) = some h → h.weight ≤ Text.ink s + 1) {e : Entry}
    (he : e.Normal) (hread : e.read head? = none) (es : List Entry) :
    ((Item.collectLines head? (((e :: es).flatMap Entry.lines).map (⟨·, .text⟩))).map
        (·.head.weight)).sum < ((e :: es).map Entry.weight).sum := by
  obtain ⟨later, hlines⟩ : ∃ later, e.lines = e.headLine :: later := ⟨_, rfl⟩
  have hnone : head? (Line.trimmed ⟨e.headLine, .text⟩) = none := by
    rw [Line.trimmed, he.trim_headLine]
    simpa [Entry.read] using hread
  have hrest := Item.weight_collectLines_le head?
    ((later ++ es.flatMap Entry.lines).map (⟨·, .text⟩)) fun l _ x hx => hhead l.text x hx
  have hlines' : (((later ++ es.flatMap Entry.lines).map fun s => (⟨s, .text⟩ : Line)).map
      fun l => Text.ink l.text + 1) =
        (later ++ es.flatMap Entry.lines).map fun l => Text.ink l + 1 := by
    rw [List.map_map]
    rfl
  rw [hlines'] at hrest
  have htotal := Entry.weight_flatMap_lines (e :: es)
  rw [List.flatMap_cons, hlines, List.cons_append, List.map_cons, List.sum_cons] at htotal
  rw [List.flatMap_cons, hlines, List.cons_append, List.map_cons, Item.collectLines, hnone]
  simp only
  omega

/-- Items are read one by one if none is missing and no weight is lost. -/
theorem Entry.collectLines_eq_of_weight {head? : Text → Option Field.Head}
    (hhead : ∀ s h, head? (Text.trim s) = some h → h.weight ≤ Text.ink s + 1) {es : List Entry}
    (h : ∀ e ∈ es, e.Normal) {items : List Item}
    (hitems : Item.collectLines head? ((es.flatMap Entry.lines).map (⟨·, .text⟩)) = items)
    (hlen : items.length = es.length)
    (hweight : (es.map Entry.weight).sum ≤ (items.map (·.head.weight)).sum) :
    items.map some = es.map (·.read head?) := by
  cases es with
  | nil =>
    rw [List.length_nil, List.length_eq_zero_iff] at hlen
    rw [hlen]
    rfl
  | cons e es =>
    have hrest : ∀ x ∈ es, x.Normal := fun x hx => h x (List.mem_cons_of_mem _ hx)
    have he := h e List.mem_cons_self
    cases hread : e.read head? with
    | none =>
      have hlost := Entry.weight_collectLines_lt hhead he hread es
      rw [hitems] at hlost
      omega
    | some item =>
      rw [List.flatMap_cons, List.map_append] at hitems
      obtain ⟨hindent, hcollect⟩ :=
        he.collectLines_lines hread ((es.flatMap Entry.lines).map (⟨·, .text⟩))
      rw [hcollect] at hitems
      have hall : ∀ x ∈ es, (x.read head?).isSome = true :=
        Entry.isSome_read_of_length hrest item hindent (by rw [hitems, hlen, List.length_cons])
      have hget : ∀ x ∈ es, x.read head? = some ((x.read head?).getD item) := by
        intro x hx
        obtain ⟨i, hi⟩ := Option.isSome_iff_exists.mp (hall x hx)
        rw [hi, Option.getD_some]
      rw [Entry.collectFrom_of_read hrest hget item hindent] at hitems
      rw [← hitems, List.map_cons, List.map_cons, hread, List.map_map]
      congr 1
      exact List.map_congr_left fun x hx => (hget x hx).symm

end Docstring

namespace Item

open Docstring

/-- Items that are read one by one give back what was written exactly if each of them does. -/
theorem map_collectLines_eq_iff {α : Type} {tag : Item → α} {entry : α → Entry}
    {head? : Text → Option Field.Head} (weight : α → Nat)
    (hhead : ∀ s h, head? (Text.trim s) = some h → h.weight ≤ Text.ink s + 1)
    (htag : ∀ i, weight (tag i) ≤ i.head.weight) {tags : List α}
    (hentry : ∀ a ∈ tags, (entry a).Normal ∧ (entry a).weight = weight a) :
    (collectLines head? (((tags.map entry).flatMap Entry.lines).map (⟨·, .text⟩))).map tag =
        tags ↔
      ∀ a ∈ tags, ((entry a).read head?).map tag = some a := by
  have hnormal : ∀ e ∈ tags.map entry, e.Normal :=
    List.forall_mem_map.mpr fun a ha => (hentry a ha).1
  constructor
  · intro heq
    have hweights : (tags.map entry).map Entry.weight = tags.map weight := by
      rw [List.map_map]
      exact List.map_congr_left fun a ha => (hentry a ha).2
    have hlen := congrArg List.length heq
    rw [List.length_map] at hlen
    have hread := Entry.collectLines_eq_of_weight hhead hnormal rfl
      (by rw [hlen, List.length_map]) <| by
        rw [hweights]
        conv_lhs => rw [← heq, List.map_map]
        exact List.sum_le_sum fun i _ => htag i
    have hsome := congrArg (List.map (Option.map tag)) hread
    rw [List.map_map, List.map_map, List.map_map] at hsome
    have hsame : tags.map some =
        tags.map ((Option.map tag ∘ fun e => e.read head?) ∘ entry) := by
      rw [← hsome]
      conv_lhs => rw [← heq, List.map_map]
      rfl
    intro a ha
    exact (List.map_inj_left.mp hsame a ha).symm
  · intro hall
    cases tags with
    | nil => rfl
    | cons a tags =>
      obtain ⟨i, hi, -⟩ := Option.map_eq_some_iff.mp (hall a List.mem_cons_self)
      have hget : ∀ e ∈ (a :: tags).map entry,
          e.read head? = some ((e.read head?).getD i) := by
        intro e he
        obtain ⟨b, hb, rfl⟩ := List.mem_map.mp he
        obtain ⟨j, hj, -⟩ := Option.map_eq_some_iff.mp (hall b hb)
        rw [hj, Option.getD_some]
      rw [Entry.collectLines_of_read hnormal hget, List.map_map, List.map_map]
      conv_rhs => rw [← List.map_id (a :: tags)]
      refine List.map_congr_left fun b hb => ?_
      obtain ⟨j, hj, hb'⟩ := Option.map_eq_some_iff.mp (hall b hb)
      simp only [Function.comp, hj, Option.getD_some, hb', id]

theorem blank_of_mem_flatMap_lines {es : List Entry} (h : ∀ e ∈ es, e.Normal) :
    ∀ l ∈ es.flatMap Entry.lines, Text.blank l = false := by
  intro l hl
  obtain ⟨e, he, hl⟩ := List.mem_flatMap.mp hl
  exact (h e he).blank_of_mem_lines l hl

/-- Parameters are read back exactly if each has a name and a type that can be written. -/
theorem params_lines_iff {ps : List ParamTag} (h : ∀ p ∈ ps, p.Normal)
    (hquiet : Line.Quiet ((ps.map ParamTag.entry).flatMap Entry.lines)) :
    params (Line.classify ((ps.map ParamTag.entry).flatMap Entry.lines)) = ps ↔
      ∀ p ∈ ps, (∀ c ∈ p.name, Field.isNameChar c = true) ∧
        Field.closeParen? (p.typeName ++ ")".toList) = some (p.typeName, []) := by
  have hnormal : ∀ e ∈ ps.map ParamTag.entry, e.Normal :=
    List.forall_mem_map.mpr fun p hp => (h p hp).entry
  rw [params, collect, Entry.collect_of_quiet hquiet (blank_of_mem_flatMap_lines hnormal),
    map_collectLines_eq_iff ParamTag.weight
      (fun s x hx => Field.weight_paramHead?_le hx) (fun i => le_rfl)
      fun p hp => ⟨(h p hp).entry, p.weight_entry⟩]
  exact forall₂_congr fun p hp => ParamTag.read_entry_iff (h p hp)

theorem errors_lines_iff {ts : List TypedTag} (h : ∀ t ∈ ts, t.Normal)
    (hquiet : Line.Quiet ((ts.map TypedTag.entry).flatMap Entry.lines)) :
    errors (Line.classify ((ts.map TypedTag.entry).flatMap Entry.lines)) = ts ↔
      ∀ t ∈ ts, Field.DelimitedType t.typeName := by
  have hnormal : ∀ e ∈ ts.map TypedTag.entry, e.Normal :=
    List.forall_mem_map.mpr fun t ht => (h t ht).entry
  rw [errors, collect, Entry.collect_of_quiet hquiet (blank_of_mem_flatMap_lines hnormal),
    map_collectLines_eq_iff TypedTag.weight
      (fun s x hx => Field.weight_errorHead?_le hx)
      (fun i => by simp only [TypedTag.weight, Field.Head.weight]; omega)
      fun t ht => ⟨(h t ht).entry, t.weight_entry⟩]
  exact forall₂_congr fun t ht => TypedTag.read_entry_iff (h t ht)

/-- The return value, if there is one, is read back exactly if its type can be written. -/
theorem returned?_lines_iff {r : Option TypedTag} (h : ∀ t ∈ r, t.Normal)
    (hquiet : Line.Quiet ((r.toList.map TypedTag.entry).flatMap Entry.lines)) :
    returned? (Line.classify ((r.toList.map TypedTag.entry).flatMap Entry.lines)) = r ↔
      ∀ t ∈ r, Field.DelimitedType t.typeName := by
  cases r with
  | none => exact ⟨fun _ => by simp, fun _ => rfl⟩
  | some t =>
    have ht : t.Normal := h t rfl
    obtain ⟨rest, hline, hfirst⟩ := ht.exists_headLine
    simp only [Option.toList_some, List.map_cons, List.map_nil, List.flatMap_cons,
      List.flatMap_nil, List.append_nil] at hquiet ⊢
    have hlater : (t.entry.laterLines.map ("    ".toList ++ ·)).map Text.trim =
        t.entry.laterLines := by
      rw [List.map_map]
      conv_rhs => rw [← List.map_id t.entry.laterLines]
      exact List.map_congr_left fun l hl => (Entry.padded_spec (ht.entry.later_spec l hl)).2.1
    have htrims : ((Line.classify t.entry.lines).filter (!·.isBlank)).map (·.trimmed) =
        t.entry.headLine :: t.entry.laterLines := by
      rw [Entry.collect_of_quiet hquiet ht.entry.blank_of_mem_lines, List.map_map, Entry.lines]
      have hcomp : (Line.trimmed ∘ fun s => (⟨s, .text⟩ : Line)) = Text.trim := rfl
      rw [hcomp, List.map_cons, ht.entry.trim_headLine, hlater]
    rw [returned?, htrims]
    constructor
    · intro heq
      have htype := congrArg TypedTag.typeName (Option.some.inj heq)
      rw [hline] at htype
      simpa using delimitedType_of_returnedHead htype
    · intro htype
      have hhead := returnedHead_of_delimitedType (htype t rfl) rest
      simp only [hline, hhead, hfirst, ht.entry.appendLines_first]
      rfl

end Item

/-! ## Lines without carriage returns -/

namespace Line

theorem dropReturn_sublist (s : Text) : dropReturn s <+ s := by
  rcases dropReturn_cases s with h | ⟨t, rfl, h⟩
  · rw [h]
  · rw [h]
    exact List.sublist_append_left t _

/-- Putting the lines of a text together again loses nothing but carriage returns. -/
theorem intercalate_split_sublist (s : Text) : "\n".toList.intercalate (split s) <+ s := by
  have hmore : ∀ ls : List Text, (ls.map dropReturn).flatMap ("\n".toList ++ ·) <+
      ls.flatMap ("\n".toList ++ ·) := by
    intro ls
    induction ls with
    | nil => exact List.Sublist.refl _
    | cons l ls ih =>
      simp only [List.map_cons, List.flatMap_cons]
      exact ((dropReturn_sublist l).append_left _).append ih
  obtain ⟨first, more, hs⟩ := List.exists_cons_of_ne_nil (List.splitOn_ne_nil '\n' s)
  have hjoin : s = first ++ more.flatMap ("\n".toList ++ ·) := by
    rw [← Text.intercalate_cons, ← hs]
    exact (List.intercalate_splitOn '\n').symm
  rw [split, hs, List.map_cons, Text.intercalate_cons]
  conv_rhs => rw [hjoin]
  exact (dropReturn_sublist first).append (hmore more)

/-- Lines that no carriage return ends are put together again, and only these. -/
theorem intercalate_split_eq_iff {s : Text} :
    "\n".toList.intercalate (split s) = s ↔ ∀ l ∈ s.splitOn '\n', l.getLast? ≠ some '\r' := by
  constructor
  · intro h l hl
    have hlines : (s.splitOn '\n').map dropReturn = s.splitOn '\n' := by
      conv_rhs => rw [← h]
      exact (List.splitOn_intercalate _ (fun l hl => newline_not_mem_of_mem_split hl)
        (split_ne_nil s)).symm
    rw [← List.map_id (s.splitOn '\n'), List.map_map] at hlines
    exact dropReturn_eq_self_iff.mp (List.map_inj_left.mp hlines l hl)
  · intro h
    have hlines : split s = s.splitOn '\n' := by
      rw [split]
      conv_rhs => rw [← List.map_id (s.splitOn '\n')]
      exact List.map_congr_left fun l hl => dropReturn_eq_self_iff.mpr (h l hl)
    rw [hlines]
    exact List.intercalate_splitOn '\n'

/-- A trimmed text is read back as it is exactly if no carriage return ends one of its lines. -/
theorem trim_intercalate_split_eq_iff {s : Text} (h : Text.trim s = s) :
    Text.trim ("\n".toList.intercalate (split s)) = s ↔
      ∀ l ∈ s.splitOn '\n', l.getLast? ≠ some '\r' := by
  rw [← intercalate_split_eq_iff]
  constructor
  · intro heq
    have hsub := Field.trim_sublist ("\n".toList.intercalate (split s))
    rw [heq] at hsub
    exact (intercalate_split_sublist s).antisymm hsub
  · intro heq
    rw [heq, h]

end Line

/-! ## Example code -/

namespace ExampleBlock

/-- The block without the carriage returns at the ends of the lines of its code. -/
def withoutReturns (b : ExampleBlock) : ExampleBlock :=
  ⟨b.language, "\n".toList.intercalate (Line.split b.code)⟩

theorem withoutReturns_eq_iff {b : ExampleBlock} : b.withoutReturns = b ↔ b.Writable := by
  rw [Writable, ← Line.intercalate_split_eq_iff]
  cases b
  simp [withoutReturns]

variable {b : ExampleBlock}

theorem Normal.dedented (h : b.Normal) : Example.Dedented (b.code.splitOn '\n') := by
  have hlines := Example.splitOn_dedent
    (fun l hl => Text.newline_not_mem_of_mem_splitOn hl) (h.code_dedented.symm ▸ h.code_ne_nil)
  rw [h.code_dedented] at hlines
  rw [hlines]
  exact Example.dedented_dedentedLines _

/-- The code is read back without the carriage returns at the ends of its lines. -/
theorem Normal.dedent_split (h : b.Normal) :
    Example.dedent (Line.split b.code) = "\n".toList.intercalate (Line.split b.code) ∧
      "\n".toList.intercalate (Line.split b.code) ≠ [] := by
  have hdedented : Example.Dedented (Line.split b.code) := h.dedented.map_dropReturn
  refine ⟨Example.dedent_of_dedented hdedented, fun hnil => ?_⟩
  obtain ⟨first, more, hs⟩ := List.exists_cons_of_ne_nil (Line.split_ne_nil b.code)
  have hfirst := hdedented.head first (by rw [hs]; rfl)
  rw [hs, Text.intercalate_cons, List.append_eq_nil_iff] at hnil
  exact Text.ne_nil_of_blank_eq_false hfirst hnil.1

theorem Normal.undirected (h : b.Normal) :
    ∀ l ∈ Line.split b.code, Example.directive? l = none := by
  intro l hl
  obtain ⟨m, hm, rfl⟩ := List.mem_map.mp hl
  rw [← Example.directive?_trim, Line.trim_dropReturn, Example.directive?_trim]
  exact h.code_undirected m hm

end ExampleBlock

namespace Example

theorem directive_spec {lang : Text} (hne : lang ≠ []) (htrim : Text.trim lang = lang)
    (hline : '\n' ∉ lang) :
    Line.split (".. code-block:: ".toList ++ lang) = [".. code-block:: ".toList ++ lang] ∧
      directive? (".. code-block:: ".toList ++ lang) = some (some lang) ∧
      Line.ownKind? (".. code-block:: ".toList ++ lang) = none ∧
      Section.ofWord? (Text.trim (".. code-block:: ".toList ++ lang)) = none := by
  have htrim' : Text.trim (".. code-block:: ".toList ++ lang) =
      ".. code-block:: ".toList ++ lang := by
    have := Text.trim_append_append (s := ".. code-block::".toList) (t := lang) (by decide) htrim
      (by decide) hne [' ']
    simpa using this
  have hdot : '.' ∈ ".. code-block:: ".toList ++ lang := by simp
  have hhead : (".. code-block:: ".toList ++ lang).head? ≠ some ':' := by simp
  refine ⟨?_, ?_, ?_, ?_⟩
  · have hnl : '\n' ∉ ".. code-block:: ".toList ++ lang := by simpa using hline
    rw [Line.split, List.splitOn_eq_singleton hnl, List.map_singleton,
      Docstring.Entry.dropReturn_of_trimmed htrim']
  · have hprefix : ".. code-block::".toList.isPrefixOf? (".. code-block:: ".toList ++ lang) =
        some (' ' :: lang) := by
      rw [List.isPrefixOf?_eq_some_iff_append_eq]
      simp
    simp only [directive?, htrim', hprefix, Option.some_or, Option.map_some,
      Text.trim_cons_blank (c := ' ') (by decide), htrim]
    simp [hne]
  · cases hk : Line.colonHeader? (".. code-block:: ".toList ++ lang) with
    | none =>
      have hfield := Line.fieldSection?_eq_none (htrim'.symm ▸ hhead)
      simp only [Line.ownKind?, Text.blank_eq_false_of_mem hdot (by decide), hk, hfield]
      rfl
    | some k =>
      obtain ⟨word, hword, hof⟩ := (Line.colonHeader?_eq_some_iff htrim' hhead).mp hk
      rw [hword] at hdot
      have := Section.letter_of_ofWord?_trim hof (by simpa using hdot) (by decide)
      exact absurd this (by decide)
  · rw [htrim']
    exact Section.ofWord?_eq_none_of_mem hdot (by decide)

/-- Nothing in a written example block opens a section, and its code is read back without the
carriage returns at the ends of its lines. -/
theorem blocks_exampleText {b : ExampleBlock} (h : b.Normal) :
    Line.Quiet (Line.split (Docstring.exampleText b)) ∧
      blocks (Line.classify (Line.split (Docstring.exampleText b))) =
        [b.withoutReturns] := by
  have hquiet : Line.Quiet (Line.split b.code) :=
    Line.forall_opens_classify_iff.mp h.code_quiet
  obtain ⟨hdedent, hne⟩ := h.dedent_split
  rw [ExampleBlock.withoutReturns]
  have hparts := splitAtDirectives_of_none h.undirected
  cases hlang : b.language with
  | none =>
    have htext : Docstring.exampleText b = b.code := by simp [Docstring.exampleText, hlang]
    rw [htext]
    refine ⟨hquiet, ?_⟩
    simp only [blocks, Line.map_text_classify, hparts, List.map_cons, List.map_nil, hdedent]
    simpa using hne
  | some lang =>
    obtain ⟨hlne, hltrim, hlline⟩ := h.language lang hlang
    obtain ⟨hsplit, hdirective, hown, hword⟩ := directive_spec hlne hltrim hlline
    have htext : Line.split (Docstring.exampleText b) =
        (".. code-block:: ".toList ++ lang) :: [] :: Line.split b.code := by
      have hsame : Docstring.exampleText b =
          (".. code-block:: ".toList ++ lang) ++ '\n' :: ([] ++ '\n' :: b.code) := by
        simp [Docstring.exampleText, hlang]
      rw [hsame, Line.split_append, Line.split_append, hsplit]
      rfl
    rw [htext]
    refine ⟨?_, ?_⟩
    · refine Line.quiet_cons_iff.mpr ⟨Line.opensAlone_eq_false_iff.mpr (.inl hown),
        fun y _ hsome => ?_, Line.quiet_cons_iff.mpr ⟨by decide, fun y _ hsome => ?_, hquiet⟩⟩
      · rw [hword] at hsome
        cases hsome
      · simp at hsome
    · have hblank : dedent ([] :: Line.split b.code) = dedent (Line.split b.code) := by
        have := dedent_append (a := [[]]) (b := []) (by simp) (by simp) (Line.split b.code)
        simpa using this
      have hnil : dedent [] = [] := rfl
      simp only [blocks, Line.map_text_classify, splitAtDirectives, hdirective, directive?_nil,
        hparts, List.map_cons, List.map_nil, hblank, hdedent, hnil]
      simpa using hne

end Example

end ApiDocs
