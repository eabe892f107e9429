import ApiDocs.Proofs.Docstring.ParsedForm
import ApiDocs.Proofs.Markdown.Composition
import ApiDocs.Proofs.Page.Chunks
import ApiDocs.Proofs.Page.TagLists

/-!
# The sections of a docstring

What a docstring documents is shown under titles. A section is written as one document, its title and
all that stands under it; a documented thing on its own is written as a document too, or as a line.
The two agree: a section is its title, a blank line and the texts of the things, each as it is
written on its own.

For this it matters what is read from a docstring. Descriptions are trimmed, so nothing is lost at
their ends; example code is not blank and ends with a visible line.

* `DocTag.toMarkdown_of_shown`: a documented thing on its own.
* `Assembler.titledBlock_tagList`: a title above a list.
* `Assembler.titledBlock_html`: a title above texts that are written as they stand.
* `Assembler.sectionChunks_parse`: all sections of a docstring.
-/

namespace ApiDocs

open Markdown

/-! ## Documented things on their own -/

namespace Markdown

/-- A text at the end of which stands something visible. -/
def EndsVisibly (s : Text) : Prop := ∃ c, s.getLast? = some c ∧ Text.isBlank c = false

namespace EndsVisibly

variable {s : Text}

theorem isChunk (h : EndsVisibly s) : IsChunk s := by
  obtain ⟨c, hlast, hc⟩ := h
  refine ⟨?_, ?_⟩
  · rintro rfl
    simp at hlast
  · rw [hlast]
    rintro hbreak
    cases hbreak
    simp at hc

theorem append_left (h : EndsVisibly s) (t : Text) : EndsVisibly (t ++ s) := by
  obtain ⟨c, hlast, hc⟩ := h
  exact ⟨c, by simp [List.getLast?_append, hlast], hc⟩

theorem indentLines (h : EndsVisibly s) (indent : Nat) :
    EndsVisibly (indentLines indent s) := by
  obtain ⟨c, hlast, hc⟩ := h
  exact ⟨c, (getLast?_indentLines indent s hc).mpr hlast, hc⟩

theorem trimEnd (h : EndsVisibly s) : Text.trimEnd (s ++ "\n".toList) = s := by
  obtain ⟨c, hlast, hc⟩ := h
  obtain ⟨t, rfl⟩ := List.getLast?_eq_some_iff.mp hlast
  rw [Text.trimEnd_append_blank (by decide), Text.trimEnd_append_of_not_blank hc]

end EndsVisibly

theorem writeNodes_append (w : Writer) (xs ys : List Node) :
    writeNodes w (xs ++ ys) = writeNodes (writeNodes w xs) ys := by
  induction xs generalizing w with
  | nil => simp [writeNodes]
  | cons n xs ih => simp [writeNodes, ih]

theorem inline_concat (ns : List Node) (n : Node) :
    inline (ns ++ [n]) =
      (writeNode (writeNodes { Writer.start with atLineStart := false } ns) n).output := by
  rw [inline, writeNodes_append, writeNodes, writeNodes]

theorem endsVisibly_push (w : Writer) {s : Text} (h : EndsVisibly s) :
    EndsVisibly (w.push s).output := by
  have hne := h.isChunk.ne_nil
  rw [Writer.push, if_neg (by simpa using hne)]
  exact (h.indentLines w.lineIndent).append_left w.output

theorem endsVisibly_pushCodeSpan (w : Writer) (value : Text) :
    EndsVisibly (w.pushCodeSpan value).output := by
  have hdelimiter : EndsVisibly (backticks (longestBacktickRun value + 1)) :=
    ⟨'\x60', by simp [backticks, List.getLast?_replicate], by decide⟩
  have hspan : EndsVisibly (codeSpan value) := hdelimiter.append_left _
  exact (hspan.append_left _).append_left w.output

end Markdown

namespace DocTag

/-- What is shown of a documented thing ends with something visible, unless its description does
not. -/
theorem endsVisibly_inline {t : DocTag} (hne : t.inline ≠ [])
    (hd : Text.trim t.description = t.description) : EndsVisibly (Markdown.inline t.inline) := by
  by_cases hdesc : t.description = []
  · -- without a description, the end is that of the name or of the type
    have hhead : t.inline = t.headNodes := by simp [DocTag.inline, hdesc]
    rw [hhead] at hne ⊢
    cases t with
    | param p =>
      rw [headNodes]
      split
      · rw [← List.nil_append [Node.strong _], inline_concat, writeNode]
        exact endsVisibly_push _ ⟨'*', by decide, by decide⟩
      · rw [show ∀ a b c d : Node, [a, b, c, d] = [a, b, c] ++ [d] from fun _ _ _ _ => rfl,
          inline_concat, writeNode]
        exact endsVisibly_push _ ⟨')', by decide, by decide⟩
    | returns p | error p | generic p =>
      rw [headNodes] at hne ⊢
      split
      · rename_i hnone
        simp [hnone] at hne
      · rw [← List.nil_append [Node.inlineCode _], inline_concat, writeNode]
        exact endsVisibly_pushCodeSpan _ _
  · have hlast := (Text.trim_eq_self_iff.mp hd).2
    have hvisible : EndsVisibly t.description :=
      ⟨_, List.getLast?_eq_some_getLast hdesc, hlast _ (List.getLast?_eq_some_getLast hdesc)⟩
    have hinline : t.inline =
        (t.headNodes ++ if t.headNodes.isEmpty then [] else [.text ": ".toList]) ++
          [.text t.description] := by
      simp only [DocTag.inline, List.isEmpty_eq_false_iff.mpr hdesc]
      rfl
    rw [hinline, inline_concat, writeNode]
    exact endsVisibly_push _ hvisible

/-- A documented thing other than a return value is written as an item. -/
theorem toMarkdown_of_shown {t : DocTag} (hr : t.isReturn = false) (hne : t.inline ≠ [])
    (htype : '\n' ∉ t.typeName) (hd : Text.trim t.description = t.description) :
    t.toMarkdown = itemText (Markdown.inline t.inline) ∧ EndsVisibly t.toMarkdown := by
  have hitem : EndsVisibly (itemText (Markdown.inline t.inline)) :=
    ((endsVisibly_inline hne hd).indentLines 2).append_left _
  have hinline : ∀ ns ∈ [t.inline], Node.areInline ns = true := by
    simpa using areInline_inline htype
  have hlist := toMarkdown_items hinline
  have hwritten : t.toMarkdown = itemText (Markdown.inline t.inline) := by
    simp only [toMarkdown, hr, List.isEmpty_eq_false_iff.mpr hne]
    rw [if_neg (by simp)]
    rw [List.map_singleton, List.flatMap_singleton] at hlist
    rw [hlist, hitem.trimEnd]
  exact ⟨hwritten, hwritten ▸ hitem⟩

theorem toMarkdown_of_not_shown {t : DocTag} (h : t.inline = []) : t.toMarkdown = [] := by
  simp [toMarkdown, h, Markdown.inline, writeNodes, Writer.start]

end DocTag

/-! ## Under a title -/

namespace Markdown

theorem separated_chunk {s : Text} (h : IsChunk s) :
    separated (s ++ "\n".toList) = s ++ "\n\n".toList := by
  rw [separated, isSuffixOf_newlines h.unended]
  simp

/-- A block below a chunk. -/
theorem toMarkdown_below {xs : List Node} {s : Text} (hs : IsChunk s)
    (hxs : Document.toMarkdown ⟨xs⟩ = s ++ "\n".toList) (y : Node) :
    Document.toMarkdown ⟨xs ++ [y]⟩ = s ++ "\n\n".toList ++ Document.toMarkdown ⟨[y]⟩ := by
  rw [toMarkdown_concat, hxs, separated_chunk hs]

theorem toMarkdown_html {s : Text} (h : IsChunk s) :
    Document.toMarkdown ⟨[.html s]⟩ = s ++ "\n".toList := by
  rw [Document.toMarkdown, writeBlocks, Writer.start, writeNode_html h]
  simp [Writer.ensureNewline, Writer.emit, h.ne_nil]

/-- Chunks below another one, with a blank line above each. -/
theorem toMarkdown_chunks {chunks : List Text} (h : ∀ t ∈ chunks, IsChunk t) {xs : List Node}
    {s : Text} (hs : IsChunk s) (hxs : Document.toMarkdown ⟨xs⟩ = s ++ "\n".toList) :
    Document.toMarkdown ⟨xs ++ chunks.map Node.html⟩ =
      s ++ chunks.flatMap ("\n\n".toList ++ ·) ++ "\n".toList := by
  induction chunks generalizing xs s with
  | nil => simpa using hxs
  | cons t chunks ih =>
    obtain ⟨ht, hrest⟩ := List.forall_mem_cons.mp h
    have hone : Document.toMarkdown ⟨xs ++ [.html t]⟩ =
        (s ++ "\n\n".toList ++ t) ++ "\n".toList := by
      rw [toMarkdown_below hs hxs, toMarkdown_html ht, List.append_assoc _ t]
    have hall := ih hrest (ht.append_left _) hone
    rw [List.map_cons, List.append_cons, hall]
    simp

end Markdown

namespace Assembler

/-- Texts under a title, with a separator between any two; nothing if there are none. -/
def titled (title separator : Text) (texts : List Text) : List Text :=
  if texts.isEmpty then []
  else ["**".toList ++ title ++ "**\n\n".toList ++ separator.intercalate texts]

theorem isChunk_title (title : Text) : IsChunk ("**".toList ++ title ++ "**".toList) :=
  IsChunk.append_left ⟨by decide, by decide⟩ _

theorem toMarkdown_title (title : Text) :
    Document.toMarkdown ⟨[.paragraph [.strong [.text title]]]⟩ =
      "**".toList ++ title ++ "**".toList ++ "\n".toList := by
  rw [toMarkdown_paragraph (by simp [Node.areInline, Node.isInline])]
  congr 1
  cases title <;> simp [Markdown.inline, writeNodes, writeNode, Writer.push, Writer.emit,
    Writer.start]

/-- A title above something, as it is written. -/
theorem titledBlock_eq {title : Text} {body : List Node} (hbody : body ≠ []) {s : Text}
    (hs : IsChunk s)
    (hwritten : Document.toMarkdown ⟨[.paragraph [.strong [.text title]]] ++ body⟩ =
      s ++ "\n".toList) :
    titledBlock title body = [s] := by
  have hblock : block (.paragraph [.strong [.text title]] :: body) = s := by
    change Text.dropEndWhile _ (Document.toMarkdown ⟨[.paragraph _] ++ body⟩) = s
    rw [hwritten, dropEndWhile_chunk hs]
  rw [titledBlock, if_neg (by simpa using hbody), hblock]

/-- A title above one block. -/
theorem titledBlock_singleton (title : Text) {y : Node} {s : Text} (hs : IsChunk s)
    (hy : Document.toMarkdown ⟨[y]⟩ = s ++ "\n".toList) :
    titledBlock title [y] = ["**".toList ++ title ++ "**\n\n".toList ++ s] := by
  refine titledBlock_eq (by simp) (hs.append_left _) ?_
  rw [toMarkdown_below (isChunk_title title) (toMarkdown_title title), hy]
  simp

/-- A title above texts that are written as they stand. -/
theorem titledBlock_html (title : Text) {texts : List Text} (h : ∀ s ∈ texts, IsChunk s) :
    titledBlock title (texts.map .html) = titled title "\n\n".toList texts := by
  cases texts with
  | nil => rfl
  | cons first more =>
    have hbelow : IsChunk ("\n\n".toList.intercalate (first :: more)) :=
      isChunk_intercalate _ (by simp) h
    refine titledBlock_eq (by simp) (hbelow.append_left _) ?_
    rw [toMarkdown_chunks h (isChunk_title title) (toMarkdown_title title), Text.intercalate_cons]
    simp

/-- A title above a list of documented things. -/
theorem titledBlock_tagList (title : Text) {tags : List DocTag}
    (h : ∀ t ∈ tags, t.isReturn = false ∧ '\n' ∉ t.typeName ∧
      Text.trim t.description = t.description) :
    titledBlock title (tagList tags) =
      titled title "\n".toList ((tags.map DocTag.toMarkdown).filter (!·.isEmpty)) := by
  have hshown : ∀ t ∈ tags, t.inline ≠ [] →
      t.toMarkdown = itemText (Markdown.inline t.inline) ∧ EndsVisibly t.toMarkdown := by
    intro t ht hne
    obtain ⟨hr, htype, hd⟩ := h t ht
    exact DocTag.toMarkdown_of_shown hr hne htype hd
  have hfilter : (tags.map DocTag.toMarkdown).filter (!·.isEmpty) =
      (shown tags).map DocTag.toMarkdown := by
    rw [List.filter_map, shown]
    congr 1
    refine List.filter_congr fun t ht => ?_
    by_cases hnone : t.inline = []
    · simp [hnone, DocTag.toMarkdown_of_not_shown hnone]
    · have hne := (hshown t ht hnone).2.isChunk.ne_nil
      simp [List.isEmpty_eq_false_iff.mpr hnone, List.isEmpty_eq_false_iff.mpr hne]
  have htexts : ∀ t ∈ shown tags,
      t.toMarkdown = itemText (Markdown.inline t.inline) ∧ EndsVisibly t.toMarkdown := by
    intro t ht
    obtain ⟨hmem, hne⟩ := List.mem_filter.mp ht
    exact hshown t hmem (by simpa using hne)
  rw [hfilter]
  by_cases hnone : shown tags = []
  · rw [tagList_eq, hnone]
    rfl
  · have hwritten : Document.toMarkdown ⟨tagList tags⟩ =
        "\n".toList.intercalate ((shown tags).map DocTag.toMarkdown) ++ "\n".toList := by
      rw [← Text.flatMap_append_newline (by simpa using hnone), List.flatMap_map,
        toMarkdown_tagList fun t ht => (h t ht).2.1]
      exact List.flatMap_congr fun t ht => by rw [(htexts t ht).1]
    have hchunk : IsChunk ("\n".toList.intercalate ((shown tags).map DocTag.toMarkdown)) := by
      refine isChunk_intercalate _ (by simpa using hnone) fun s hs => ?_
      obtain ⟨t, ht, rfl⟩ := List.mem_map.mp hs
      exact (htexts t ht).2.isChunk
    rw [tagList_eq, if_neg (by simpa using hnone)] at hwritten ⊢
    rw [titledBlock_singleton title hchunk hwritten, titled, if_neg (by simpa using hnone)]

/-- A title above the return value. -/
theorem titledBlock_returnNodes (title : Text) {d : Docstring}
    (h : ∀ t ∈ d.returns, '\n' ∉ t.typeName ∧ Text.trim t.description = t.description) :
    titledBlock title (returnNodes d) = titled title "\n".toList
      ((d.returns.toList.map fun t => (DocTag.returns t).toMarkdown).filter (!·.isEmpty)) := by
  cases hreturns : d.returns with
  | none => simp [returnNodes, hreturns, titledBlock, titled]
  | some t =>
    obtain ⟨htype, hd⟩ := h t hreturns
    by_cases hnone : (DocTag.returns t).inline = []
    · simp [returnNodes, hreturns, hnone, titledBlock, titled, DocTag.toMarkdown_of_not_shown hnone]
    · have hends := DocTag.endsVisibly_inline hnone hd
      have hwritten : (DocTag.returns t).toMarkdown = Markdown.inline (DocTag.returns t).inline := by
        simp [DocTag.toMarkdown, DocTag.isReturn]
      have hnodes : returnNodes d = [.paragraph (DocTag.returns t).inline] := by
        simp [returnNodes, hreturns, hnone]
      have hparagraph := toMarkdown_paragraph (DocTag.areInline_inline (t := .returns t) htype)
      rw [hnodes, titledBlock_singleton title hends.isChunk hparagraph]
      simp [hwritten, hends.isChunk.ne_nil, titled]

/-! ## Example code -/

/-- Code that ends with a visible line is a chunk. -/
theorem isChunk_code {b : ExampleBlock} (h : b.Normal) : IsChunk b.code := by
  refine ⟨h.code_ne_nil, fun hlast => ?_⟩
  obtain ⟨before, hcode⟩ := List.getLast?_eq_some_iff.mp hlast
  have hline := h.dedented.last []
  rw [hcode, List.splitOn_append_cons_self] at hline
  simp at hline

theorem blank_code {b : ExampleBlock} (h : b.Normal) : Text.blank b.code = false := by
  obtain ⟨first, more, hlines⟩ :=
    List.exists_cons_of_ne_nil (List.splitOn_ne_nil '\n' b.code)
  have hfirst : Text.blank first = false := h.dedented.head first (by rw [hlines]; rfl)
  have hcode : b.code = first ++ more.flatMap ("\n".toList ++ ·) := by
    rw [← Text.intercalate_cons, ← hlines]
    exact (List.intercalate_splitOn '\n').symm
  rw [hcode, Text.blank_append, hfirst, Bool.false_and]

theorem isChunk_styleAs (styler : StylerStrategy) {b : ExampleBlock} (h : b.Normal)
    (language : Text) : IsChunk (styler.styler.styleAs b.code language) := by
  cases styler with
  | plain => exact isChunk_code h
  | pycode =>
    simp only [StylerStrategy.styler, Styler.styleAs, Styler.fence, blank_code h]
    exact isChunk_codeBlock _ _

/-! ## All sections -/

variable {d : Docstring}

theorem titledBlock_params (h : d.Normal) (title : Text) :
    titledBlock title (tagList (d.params.map .param)) =
      titled title "\n".toList (d.params.map fun p => (DocTag.param p).toMarkdown) := by
  have htags : ∀ t ∈ d.params.map DocTag.param, t.isReturn = false ∧ '\n' ∉ t.typeName ∧
      Text.trim t.description = t.description := by
    intro t ht
    obtain ⟨p, hp, rfl⟩ := List.mem_map.mp ht
    exact ⟨rfl, (h.params p hp).typed.type_line, (h.params p hp).typed.trim_description⟩
  have hall : ∀ s ∈ (d.params.map DocTag.param).map DocTag.toMarkdown, (!s.isEmpty) = true := by
    intro s hs
    obtain ⟨t, ht, rfl⟩ := List.mem_map.mp hs
    obtain ⟨hr, htype, hdesc⟩ := htags t ht
    -- there is always something to show of a parameter: its name
    obtain ⟨p, -, rfl⟩ := List.mem_map.mp ht
    have hne : (DocTag.param p).inline ≠ [] := by
      simp only [DocTag.inline, DocTag.headNodes]
      split <;> simp
    have := (DocTag.toMarkdown_of_shown hr hne htype hdesc).2.isChunk.ne_nil
    simpa using this
  rw [titledBlock_tagList title htags, List.filter_eq_self.mpr hall, List.map_map]
  rfl

theorem titledBlock_raises (h : d.Normal) (title : Text) :
    titledBlock title (tagList (d.raises.map .error)) = titled title "\n".toList
      ((d.raises.map fun t => (DocTag.error t).toMarkdown).filter (!·.isEmpty)) := by
  have htags : ∀ t ∈ d.raises.map DocTag.error, t.isReturn = false ∧ '\n' ∉ t.typeName ∧
      Text.trim t.description = t.description := by
    intro t ht
    obtain ⟨e, he, rfl⟩ := List.mem_map.mp ht
    exact ⟨rfl, (h.raises e he).type_line, (h.raises e he).trim_description⟩
  rw [titledBlock_tagList title htags, List.map_map]
  rfl

theorem titledBlock_examples (h : d.Normal) (a : Assembler) (title : Text) :
    titledBlock title (a.exampleNodes d) = titled title "\n\n".toList
      (d.exampleBlocks.map fun b =>
        a.strategies.styler.styler.styleAs b.code (b.language.getD a.options.language)) := by
  have hchunks : ∀ s ∈ d.exampleBlocks.map (fun b =>
      a.strategies.styler.styler.styleAs b.code (b.language.getD a.options.language)),
      IsChunk s := by
    intro s hs
    obtain ⟨b, hb, rfl⟩ := List.mem_map.mp hs
    exact isChunk_styleAs _ (h.exampleBlocks b hb) _
  rw [exampleNodes, List.filter_eq_self.mpr fun s hs => by simpa using (hchunks s hs).ne_nil,
    titledBlock_html title hchunks]

/-- **Sections agree with what is written on its own.** The blocks of a docstring that has been read
are, in this order, its description and the sections of which there is something to show. A section
is its title above the documented things as each is written on its own, or above the code of each
block, in its own language or else in that of the options. -/
theorem sectionChunks_parse (a : Assembler) (s : Text) :
    let d := Docstring.parse s
    a.sectionChunks d =
      (if d.description = [] then [] else [d.description]) ++
        titled "Parameters:".toList "\n".toList
          (d.params.map fun p => (DocTag.param p).toMarkdown) ++
        titled "Returns:".toList "\n".toList
          ((d.returns.toList.map fun t => (DocTag.returns t).toMarkdown).filter (!·.isEmpty)) ++
        titled "Raises:".toList "\n".toList
          ((d.raises.map fun t => (DocTag.error t).toMarkdown).filter (!·.isEmpty)) ++
        titled "Example:".toList "\n\n".toList
          (d.exampleBlocks.map fun b =>
            a.strategies.styler.styler.styleAs b.code (b.language.getD a.options.language)) := by
  intro d
  have hnormal : d.Normal := Docstring.normal_parse s
  have hreturns : ∀ t ∈ d.returns,
      '\n' ∉ t.typeName ∧ Text.trim t.description = t.description := fun t ht =>
    ⟨(hnormal.returns t ht).type_line, (hnormal.returns t ht).trim_description⟩
  rw [sectionChunks, titledBlock_params hnormal, titledBlock_returnNodes _ hreturns,
    titledBlock_raises hnormal, titledBlock_examples hnormal]
  simp only [List.isEmpty_iff]

end Assembler

end ApiDocs
