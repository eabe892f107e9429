import ApiDocs.Docstring.Writer
import ApiDocs.Proofs.Docstring.Concatenation
import ApiDocs.Proofs.Docstring.ExampleCode

/-!
# Texts put together from sections

A written docstring is its description and its sections, with a blank line between two. Such
a blank line is the last line of what stands above it, and it adds nothing there. So a written
docstring is read section by section.

* `Block.gather_append_blank`: a blank line below other lines changes nothing that is found.
* `Docstring.yields_append`: a section below a blank line is read on its own.
* `Block.gather_sectionBlock`: the blocks of one written section.
* `Docstring.yields_write`: a written docstring is read section by section.
-/

namespace ApiDocs

/-! ## A blank line at the end -/

namespace Example

theorem directive?_nil : directive? [] = none := by decide

theorem dedent_append_nil (ls : List Text) : dedent (ls ++ [[]]) = dedent ls :=
  dedent_append (a := []) (by simp) (by simp) ls

/-- An empty line below others belongs to the last part between directives. -/
theorem splitAtDirectives_append_nil (ls : List Text) :
    ((splitAtDirectives (ls ++ [[]])).1 = (splitAtDirectives ls).1 ∨
        (splitAtDirectives (ls ++ [[]])).1 = (splitAtDirectives ls).1 ++ [[]]) ∧
      (splitAtDirectives (ls ++ [[]])).2.map (fun g => (g.1, dedent g.2)) =
        (splitAtDirectives ls).2.map (fun g => (g.1, dedent g.2)) := by
  induction ls with
  | nil => simp [splitAtDirectives, directive?_nil]
  | cons s ls ih =>
    obtain ⟨hfst, hsnd⟩ := ih
    cases hd : directive? s with
    | none =>
      simp only [List.cons_append, splitAtDirectives, hd]
      refine ⟨?_, hsnd⟩
      rcases hfst with h | h
      · exact .inl (by rw [h])
      · exact .inr (by rw [h])
    | some language =>
      simp only [List.cons_append, splitAtDirectives, hd, List.map_cons, hsnd]
      refine ⟨.inl trivial, ?_⟩
      rcases hfst with h | h
      · rw [h]
      · rw [h, dedent_append_nil]

theorem blocks_append_nil (body : List Line) {l : Line} (hl : l.text = []) :
    blocks (body ++ [l]) = blocks body := by
  obtain ⟨hfst, hsnd⟩ := splitAtDirectives_append_nil (body.map (·.text))
  have hbefore : dedent (splitAtDirectives (body.map (·.text) ++ [[]])).1 =
      dedent (splitAtDirectives (body.map (·.text))).1 := by
    rcases hfst with h | h
    · rw [h]
    · rw [h, dedent_append_nil]
  have hblocks : ∀ body, blocks body =
      (((none, dedent (splitAtDirectives (body.map (·.text))).1) ::
          (splitAtDirectives (body.map (·.text))).2.map fun g => (g.1, dedent g.2)).map
        fun g => (⟨g.1, g.2⟩ : ExampleBlock)).filter fun b => !b.code.isEmpty := by
    intro body
    rw [List.map_cons, List.map_map]
    rfl
  rw [hblocks, hblocks, List.map_append, List.map_singleton, hl, hbefore, hsnd]

end Example

namespace Block

/-- What a block adds to a docstring. -/
structure Yield where
  params : List ParamTag
  returned? : Option TypedTag
  errors : List TypedTag
  examples : List ExampleBlock

/-- What the block adds. -/
def yield (b : Block) : Yield := ⟨b.params, b.returned?, b.errors, b.examples⟩

theorem yield_body_append (k : Section) (lines : List Line) {l : Line} (hk : l.kind = .blank)
    (hl : l.text = []) : (body k (lines ++ [l])).yield = (body k lines).yield := by
  have hfilter : (lines ++ [l]).filter (!·.isBlank) = lines.filter (!·.isBlank) := by
    simp [Line.isBlank, hk]
  have hcollect : ∀ head?, Item.collect head? (lines ++ [l]) = Item.collect head? lines := by
    intro head?
    rw [Item.collect, hfilter, Item.collect]
  have hreturned : Item.returned? (lines ++ [l]) = Item.returned? lines := by
    simp only [Item.returned?, hfilter]
  cases k <;>
    simp [yield, params, returned?, errors, examples, Item.params, Item.errors, hcollect,
      hreturned, Example.blocks_append_nil lines hl]

theorem yield_opened? {l m : Line} {following : List Line} {b c : Block} (hk : m.kind = .blank)
    (hm : m.text = []) (hb : opened? l following = some b)
    (hc : opened? l (following ++ [m]) = some c) : c.yield = b.yield := by
  have howned : ownedLines (following ++ [m]) = ownedLines following ++ [m] := by
    simp [ownedLines, hk]
  have htake : ∀ ls : List Line, (ls ++ [m]).takeWhile (!·.isBlank) =
      ls.takeWhile (!·.isBlank) := by
    intro ls
    induction ls with
    | nil => simp [Line.isBlank, hk]
    | cons x ls ih => rw [List.cons_append, List.takeWhile_cons, List.takeWhile_cons, ih]
  cases hkind : l.kind with
  | header k =>
    simp only [opened?, hkind, Option.some.injEq] at hb hc
    rw [← hb, ← hc, howned, yield_body_append _ _ hk hm]
  | field k =>
    simp only [opened?, hkind, Option.some.injEq] at hb hc
    rw [← hb, ← hc, howned, htake]
  | blank | underline | text => simp [opened?, hkind] at hb

/-- A blank line below other lines changes nothing that is found in them. -/
theorem gather_append_blank (ls : List Line) {m : Line} (hk : m.kind = .blank)
    (hm : m.text = []) :
    ((gather (ls ++ [m])).1 = (gather ls).1 ∨ (gather (ls ++ [m])).1 = (gather ls).1 ++ [m]) ∧
      (gather (ls ++ [m])).2.map yield = (gather ls).2.map yield := by
  induction ls with
  | nil =>
    have hopens : m.opens = false := by simp [Line.opens, hk]
    rw [List.nil_append, gather_cons_of_not_opens hopens]
    exact ⟨.inr rfl, rfl⟩
  | cons l ls ih =>
    obtain ⟨hfst, hsnd⟩ := ih
    cases hl : l.opens with
    | true =>
      obtain ⟨b, hb, hg⟩ := gather_cons_of_opens hl ls
      obtain ⟨c, hc, hg'⟩ := gather_cons_of_opens hl (ls ++ [m])
      rw [List.cons_append, hg, hg']
      refine ⟨.inl rfl, ?_⟩
      have hyield : c.yield = b.yield := by
        rcases hfst with h | h
        · rw [h, hb] at hc
          cases hc
          rfl
        · rw [h] at hc
          exact yield_opened? hk hm hb hc
      rw [List.map_cons, List.map_cons, hyield, hsnd]
    | false =>
      rw [List.cons_append, gather_cons_of_not_opens hl, gather_cons_of_not_opens hl]
      refine ⟨?_, hsnd⟩
      rcases hfst with h | h
      · exact .inl (by rw [h])
      · exact .inr (by rw [h, List.cons_append])

end Block

/-! ## Texts below each other with a blank line between -/

namespace Docstring

/-- What the blocks of a text add, block by block. -/
def yields (s : Text) : List Block.Yield := (Block.gather (Line.ofText s)).2.map Block.yield

/-- All that is read of a text but its description shows in what its blocks add. -/
theorem parse_eq (s : Text) :
    parse s = ⟨s, (parse s).description, (yields s).flatMap (·.params),
      (yields s).findSome? (·.returned?), (yields s).flatMap (·.errors),
      joinExamples ((yields s).flatMap (·.examples)), (yields s).flatMap (·.examples)⟩ := by
  simp only [parse, yields, List.flatMap_map, List.findSome?_map]
  rfl

theorem ofText_append_newline (s : Text) :
    Line.ofText (s ++ ['\n']) = Line.ofText s ++ [⟨[], .blank⟩] := by
  have hunderline : Line.isUnderline [] = false := by decide
  rw [Line.ofText, Line.split_append, Line.classify_append]
  · rfl
  · intro y hy
    obtain rfl : [] = y := by simpa [Line.split, Line.dropReturn, List.splitOn_nil] using hy
    exact hunderline

theorem trim_intercalate_append_nil (ls : List Text) :
    Text.trim ("\n".toList.intercalate (ls ++ [[]])) =
      Text.trim ("\n".toList.intercalate ls) := by
  cases ls with
  | nil => rfl
  | cons l ls =>
    rw [List.cons_append, Text.intercalate_cons, Text.intercalate_cons, List.flatMap_append,
      ← List.append_assoc]
    exact Text.trim_append_singleton_blank (by decide) _

/-- A text whose first line opens a section is read on its own below a blank line. -/
theorem yields_append (above : Text) {below : Text} (h : Line.opensText below = true) :
    yields (above ++ "\n\n".toList ++ below) = yields above ++ yields below ∧
      (parse (above ++ "\n\n".toList ++ below)).description = (parse above).description := by
  have hsame : above ++ "\n\n".toList ++ below = (above ++ ['\n']) ++ '\n' :: below := by simp
  have hg := Block.gather_ofText_append (above ++ ['\n']) h
  rw [ofText_append_newline] at hg
  obtain ⟨hfst, hsnd⟩ := Block.gather_append_blank (Line.ofText above) (m := ⟨[], .blank⟩) rfl rfl
  rw [hsame]
  refine ⟨?_, ?_⟩
  · rw [yields, hg, List.map_append, hsnd, yields, yields]
  · simp only [parse, hg]
    rcases hfst with h | h
    · rw [h]
    · rw [h, List.map_append]
      exact trim_intercalate_append_nil _

/-- Sections below a text, each below a blank line, are read one by one. -/
theorem yields_append_flatMap (first : Text) {more : List Text}
    (h : ∀ s ∈ more, Line.opensText s = true) :
    yields (first ++ more.flatMap ("\n\n".toList ++ ·)) = yields first ++ more.flatMap yields ∧
      (parse (first ++ more.flatMap ("\n\n".toList ++ ·))).description =
        (parse first).description := by
  induction more using List.reverseRecOn with
  | nil => simp
  | append_singleton more s ih =>
    obtain ⟨hyields, hdescription⟩ := ih fun t ht => h t (List.mem_append_left _ ht)
    have hs := h s (List.mem_append_right _ List.mem_cons_self)
    obtain ⟨hy, hd⟩ := yields_append (first ++ more.flatMap ("\n\n".toList ++ ·)) hs
    have hsame : first ++ (more ++ [s]).flatMap ("\n\n".toList ++ ·) =
        first ++ more.flatMap ("\n\n".toList ++ ·) ++ "\n\n".toList ++ s := by simp
    rw [hsame, hy, hd, hyields, hdescription]
    simp

end Docstring

/-! ## One section -/

theorem Line.split_sectionBlock (k : Section) (items : List Text) :
    Line.split (Docstring.sectionBlock k items) =
      k.title :: List.replicate k.title.length '-' :: items.flatMap Line.split := by
  have htitle : '\n' ∉ k.title ∧ '\n' ∉ List.replicate k.title.length '-' ∧
      Line.dropReturn k.title = k.title ∧
      Line.dropReturn (List.replicate k.title.length '-') =
        List.replicate k.title.length '-' := by
    cases k <;> decide
  obtain ⟨htitle, hdashes, hdrop, hdrop'⟩ := htitle
  rw [Line.split, Docstring.sectionBlock, Text.splitOn_append_flatMap, Docstring.sectionHeader,
    List.splitOn_append_cons_self, List.splitOn_eq_singleton htitle,
    List.splitOn_eq_singleton hdashes, List.map_append, List.map_flatMap]
  simp only [List.map_append, List.map_cons, List.map_nil, hdrop, hdrop']
  rfl

theorem Line.ofText_sectionBlock (k : Section) (items : List Text) :
    Line.ofText (Docstring.sectionBlock k items) =
      ⟨k.title, .header k⟩ :: ⟨List.replicate k.title.length '-', .underline⟩ ::
        Line.classify (items.flatMap Line.split) := by
  have hword : Section.ofWord? (Text.trim k.title) = some k := by cases k <;> decide
  have hunderline : Line.isUnderline (List.replicate k.title.length '-') = true := by
    cases k <;> decide
  rw [Line.ofText, Line.split_sectionBlock, Line.classify_cons_underlined hword hunderline]

theorem Line.opensText_sectionBlock (k : Section) (items : List Text) :
    Line.opensText (Docstring.sectionBlock k items) = true := by
  simp [Line.opensText, Line.ofText_sectionBlock, Line.opens]

/-- The blocks of a written section: its header owns the lines of its items up to the first that
opens something else. -/
theorem Block.gather_sectionBlock (k : Section) (items : List Text) :
    (Block.gather (Line.ofText (Docstring.sectionBlock k items))).2 =
      Block.body k
          (Block.ownedLines (Block.gather (Line.classify (items.flatMap Line.split))).1) ::
        (Block.gather (Line.classify (items.flatMap Line.split))).2 := by
  rw [Line.ofText_sectionBlock, Block.gather,
    Block.gather_cons_of_not_opens (l := ⟨List.replicate k.title.length '-', .underline⟩) rfl]
  simp [Block.opened?, Block.ownedLines]

/-- A section in which nothing opens another is read as one block. -/
theorem Docstring.yields_sectionBlock_of_quiet (k : Section) {items : List Text}
    (h : Line.Quiet (items.flatMap Line.split)) :
    yields (sectionBlock k items) =
      [(Block.body k (Line.classify (items.flatMap Line.split))).yield] := by
  rw [yields, Block.gather_sectionBlock,
    Block.gather_of_forall_not_opens (Line.forall_opens_classify_iff.mpr h),
    Block.ownedLines_of_quiet h, List.map_singleton]

/-! ## All sections -/

namespace Docstring

/-- The sections of a docstring as they are written. -/
def writtenSections (d : Docstring) : List Text :=
  (if d.params.isEmpty then [] else [sectionBlock .parameters (d.params.map paramLine)]) ++
  d.returns.toList.map (fun r => sectionBlock .returns [typedLine r]) ++
  (if d.raises.isEmpty then [] else [sectionBlock .raises (d.raises.map typedLine)]) ++
  d.exampleBlocks.map fun b => sectionBlock .examples [exampleText b]

theorem writtenBlocks_eq (d : Docstring) : d.writtenBlocks =
    (if d.description.isEmpty then [] else [d.description]) ++ d.writtenSections := by
  simp only [writtenBlocks, writtenSections, List.append_assoc]

theorem opensText_of_mem_writtenSections {d : Docstring} {s : Text}
    (h : s ∈ d.writtenSections) : Line.opensText s = true := by
  have hblock : ∃ k items, s = sectionBlock k items := by
    simp only [writtenSections, List.mem_append, List.mem_map, Option.mem_toList] at h
    rcases h with ((h | ⟨t, -, rfl⟩) | h) | ⟨b, -, rfl⟩
    · split at h
      · simp at h
      · exact ⟨_, _, List.mem_singleton.mp h⟩
    · exact ⟨_, _, rfl⟩
    · split at h
      · simp at h
      · exact ⟨_, _, List.mem_singleton.mp h⟩
    · exact ⟨_, _, rfl⟩
  obtain ⟨k, items, rfl⟩ := hblock
  exact Line.opensText_sectionBlock k items

/-- Nothing but a description is read of quiet lines. -/
theorem parse_of_quiet {s : Text} (h : Line.Quiet (Line.split s)) :
    yields s = [] ∧
      (parse s).description = Text.trim ("\n".toList.intercalate (Line.split s)) := by
  have hg : Block.gather (Line.ofText s) = (Line.classify (Line.split s), []) :=
    Block.gather_of_forall_not_opens (Line.forall_opens_classify_iff.mpr h)
  refine ⟨by rw [yields, hg, List.map_nil], ?_⟩
  simp only [parse, hg, Line.map_text_classify]

/-- **A written docstring is read section by section.** -/
theorem yields_write {d : Docstring} (h : Line.Quiet (Line.split d.description)) :
    yields d.write = d.writtenSections.flatMap yields ∧
      (parse d.write).description =
        Text.trim ("\n".toList.intercalate (Line.split d.description)) := by
  obtain ⟨hnone, hdescription⟩ := parse_of_quiet h
  rw [write, writtenBlocks_eq]
  by_cases hempty : d.description = []
  · rw [hempty, List.isEmpty_nil, if_pos rfl, List.nil_append]
    cases hs : d.writtenSections with
    | nil => exact ⟨rfl, by decide⟩
    | cons first more =>
      have hopens : ∀ s ∈ first :: more, Line.opensText s = true :=
        fun s hmem => opensText_of_mem_writtenSections (hs ▸ hmem)
      obtain ⟨hy, hd⟩ := yields_append_flatMap first
        fun s hmem => hopens s (List.mem_cons_of_mem _ hmem)
      rw [Text.intercalate_cons, hy, hd]
      refine ⟨rfl, ?_⟩
      simp only [parse, Block.fst_gather_of_opensText (hopens first List.mem_cons_self)]
      rfl
  · rw [List.isEmpty_eq_false_iff.mpr hempty, if_neg (by simp), List.singleton_append,
      Text.intercalate_cons]
    have hopens : ∀ s ∈ d.writtenSections, Line.opensText s = true := by
      intro s hmem
      exact opensText_of_mem_writtenSections hmem
    obtain ⟨hy, hd⟩ := yields_append_flatMap d.description hopens
    rw [hy, hd, hnone, List.nil_append]
    exact ⟨rfl, hdescription⟩

end Docstring

end ApiDocs
