import ApiDocs.Proofs.Docstring.NormalForm
import ApiDocs.Proofs.Docstring.Sections

/-!
# Items as they are written

An item is written on a line that starts with its head; the later lines of its description are
indented below it. When nothing among these lines opens a section, the items of a body are found
at the lines without indentation.

* `Item.collectFrom_deeper`: lines that are indented deeper continue an item.
* `Docstring.Entry`: the head and the description of an item, with the lines that are written.
* `Docstring.Entry.Normal.quiet_lines_iff`: when nothing in an entry opens a section or a field.
* `Docstring.Entry.collectLines_of_read`: entries with readable heads are read back one by one.
* `Docstring.Entry.isSome_read_of_length`: no head is unreadable if as many items are found as
  were written.
* `Docstring.entrySection`: a section of entries; `Docstring.entrySection_of_quiet`: it is read as
  one block if nothing in it opens another.
-/

namespace ApiDocs

/-- Deeper lines continue an item. -/
theorem Item.collectFrom_deeper (head? : Text → Option Field.Head) (item : Item) {ws : List Text}
    (h : ∀ w ∈ ws, item.indent < Text.indent w) (rest : List Line) :
    Item.collectFrom head? item (ws.map (⟨·, .text⟩) ++ rest) =
      Item.collectFrom head? { item with
        head.description := Item.appendLines item.head.description (ws.map Text.trim) } rest := by
  induction ws generalizing item with
  | nil => rfl
  | cons w ws ih =>
    have hdeep : item.indent < Line.indent ⟨w, .text⟩ := h w List.mem_cons_self
    rw [List.map_cons, List.cons_append, Item.collectFrom, if_pos hdeep]
    exact ih (item.continued ⟨w, .text⟩) fun v hv => h v (List.mem_cons_of_mem _ hv)

namespace Docstring

/-- The head and the description of an item, as `fieldLine` writes them. -/
structure Entry where
  head : Text
  description : Text

namespace Entry

/-- The first line of the description. -/
def first (e : Entry) : Text := (e.description.splitOn '\n').headD []

/-- The lines of the description after the first. -/
def laterLines (e : Entry) : List Text := (e.description.splitOn '\n').tail

/-- The line on which the head is written. -/
def headLine (e : Entry) : Text := e.head ++ if e.first.isEmpty then [] else ' ' :: e.first

/-- The lines that are written. -/
def lines (e : Entry) : List Text := e.headLine :: e.laterLines.map ("    ".toList ++ ·)

/-- The head is a trimmed line that ends in a colon, and the description is put together from
lines. -/
structure Normal (e : Entry) : Prop where
  head_trimmed : Text.trim e.head = e.head
  head_line : '\n' ∉ e.head
  head_colon : e.head.getLast? = some ':'
  description : e.description = [] ∨ Item.Joined e.description

/-! ## The lines of one entry -/

theorem fieldLine_eq (e : Entry) : fieldLine e.head e.description =
    e.headLine ++ (e.laterLines.map ("    ".toList ++ ·)).flatMap ('\n' :: ·) := by
  unfold fieldLine headLine laterLines first
  split
  · rename_i hnil
    exact absurd hnil (List.splitOn_ne_nil '\n' _)
  · rename_i first more hlines
    rw [hlines, List.flatMap_map]
    rfl

variable {e : Entry}

theorem Normal.line_spec (h : e.Normal) (hne : e.description ≠ []) :
    ∀ l ∈ e.description.splitOn '\n', Text.blank l = false ∧ Text.trim l = l ∧ '\n' ∉ l := by
  intro l hl
  obtain ⟨hb, ht⟩ := (h.description.resolve_left hne).line l hl
  exact ⟨hb, ht, Text.newline_not_mem_of_mem_splitOn hl⟩

theorem first_eq (e : Entry) : e.description.splitOn '\n' = e.first :: e.laterLines := by
  obtain ⟨first, more, hlines⟩ := List.exists_cons_of_ne_nil
    (List.splitOn_ne_nil '\n' e.description)
  simp [Entry.first, laterLines, hlines]

theorem of_description_eq_nil (h : e.description = []) : e.first = [] ∧ e.laterLines = [] := by
  simp [first, laterLines, h, List.splitOn_nil]

theorem Normal.first_spec (h : e.Normal) :
    Text.trim e.first = e.first ∧ '\n' ∉ e.first ∧ (e.first = [] ↔ e.description = []) := by
  by_cases hne : e.description = []
  · simp [(of_description_eq_nil hne).1, hne]
  · obtain ⟨hb, ht, hnl⟩ := h.line_spec hne e.first (e.first_eq ▸ List.mem_cons_self)
    refine ⟨ht, hnl, iff_of_false (Text.ne_nil_of_blank_eq_false hb) hne⟩

theorem Normal.later_spec (h : e.Normal) :
    ∀ l ∈ e.laterLines, Text.blank l = false ∧ Text.trim l = l ∧ '\n' ∉ l := by
  intro l hl
  by_cases hne : e.description = []
  · simp [(of_description_eq_nil hne).2] at hl
  · exact h.line_spec hne l (e.first_eq ▸ List.mem_cons_of_mem _ hl)

theorem Normal.appendLines_first (h : e.Normal) :
    Item.appendLines e.first e.laterLines = e.description := by
  rcases h.description with hnil | hjoined
  · simp [of_description_eq_nil hnil, hnil, Item.appendLines]
  · exact Item.appendLines_of_joined hjoined e.first_eq

/-- The line of the head is the head and a text of which the first line of the description is the
trim. -/
theorem Normal.exists_headLine (h : e.Normal) :
    ∃ rest, e.headLine = e.head ++ rest ∧ Text.trim rest = e.first := by
  refine ⟨_, rfl, ?_⟩
  by_cases hne : e.first = []
  · simp [hne]
  · simp [hne, Text.trim_cons_blank, h.first_spec.1]

theorem Normal.head_ne_nil (h : e.Normal) : e.head ≠ [] := by
  intro hnil
  have := h.head_colon
  simp [hnil] at this

theorem Normal.trim_headLine (h : e.Normal) : Text.trim e.headLine = e.headLine := by
  unfold headLine
  by_cases hne : e.first = []
  · simpa [hne] using h.head_trimmed
  · have := Text.trim_append_append h.head_trimmed h.first_spec.1 h.head_ne_nil hne [' ']
    simpa [hne] using this

theorem Normal.colon_mem_headLine (h : e.Normal) : ':' ∈ e.headLine :=
  List.mem_append_left _ (List.mem_of_getLast? h.head_colon)

theorem Normal.blank_headLine (h : e.Normal) : Text.blank e.headLine = false :=
  Text.blank_eq_false_of_mem h.colon_mem_headLine (by decide)

theorem Normal.newline_not_mem_headLine (h : e.Normal) : '\n' ∉ e.headLine := by
  intro hnl
  rcases List.mem_append.mp hnl with hnl | hnl
  · exact h.head_line hnl
  · split at hnl
    · simp at hnl
    · rcases List.mem_cons.mp hnl with hnl | hnl
      · simp at hnl
      · exact h.first_spec.2.1 hnl

theorem dropReturn_of_trimmed {s : Text} (h : Text.trim s = s) : Line.dropReturn s = s := by
  refine Line.dropReturn_eq_self_iff.mpr fun hlast => ?_
  have := (Text.trim_eq_self_iff.mp h).2 _ hlast
  simp [Text.isBlank] at this

theorem padded_spec {l : Text} (h : Text.blank l = false ∧ Text.trim l = l ∧ '\n' ∉ l) :
    Text.blank ("    ".toList ++ l) = false ∧ Text.trim ("    ".toList ++ l) = l ∧
      '\n' ∉ "    ".toList ++ l ∧ Line.dropReturn ("    ".toList ++ l) = "    ".toList ++ l ∧
      0 < Text.indent ("    ".toList ++ l) := by
  obtain ⟨hb, ht, hnl⟩ := h
  refine ⟨by rw [Text.blank_append, hb, Bool.and_false], ?_, by simpa using hnl, ?_, ?_⟩
  · rw [Text.trim_blank_append (by decide), ht]
  · rw [Line.dropReturn_eq_self_iff, List.getLast?_append_of_ne_nil _
      (Text.ne_nil_of_blank_eq_false hb), ← Line.dropReturn_eq_self_iff]
    exact dropReturn_of_trimmed ht
  · exact (Text.indent_cons_blank (c := ' ') (by decide) _).symm ▸ Nat.succ_pos _

theorem Normal.split_fieldLine (h : e.Normal) :
    Line.split (fieldLine e.head e.description) = e.lines := by
  rw [Line.split, fieldLine_eq, Text.splitOn_append_flatMap,
    List.splitOn_eq_singleton h.newline_not_mem_headLine, List.map_append, List.map_flatMap,
    List.flatMap_map]
  rw [List.map_singleton, dropReturn_of_trimmed h.trim_headLine, lines, List.singleton_append]
  congr 1
  rw [List.map_eq_flatMap]
  refine List.flatMap_congr fun l hl => ?_
  obtain ⟨-, -, hnl, hdrop, -⟩ := padded_spec (h.later_spec l hl)
  rw [List.splitOn_eq_singleton hnl, List.map_singleton, hdrop]

/-! ## When nothing in an entry opens a section -/

theorem isUnderline_eq_false_of_colon {s : Text} (h : ':' ∈ Text.trim s) :
    Line.isUnderline s = false := by
  by_contra hs
  simp only [Line.isUnderline, Bool.not_eq_false, Bool.and_eq_true, Bool.or_eq_true,
    List.all_eq_true, beq_iff_eq] at hs
  rcases hs.2 with hall | hall
  · exact absurd (hall _ h) (by decide)
  · exact absurd (hall _ h) (by decide)

theorem Normal.isUnderline_headLine (h : e.Normal) : Line.isUnderline e.headLine = false :=
  isUnderline_eq_false_of_colon (h.trim_headLine.symm ▸ h.colon_mem_headLine)

theorem Normal.blank_of_mem_lines (h : e.Normal) : ∀ l ∈ e.lines, Text.blank l = false := by
  intro l hl
  rcases List.mem_cons.mp hl with rfl | hl
  · exact h.blank_headLine
  · obtain ⟨m, hm, rfl⟩ := List.mem_map.mp hl
    exact (padded_spec (h.later_spec m hm)).1

/-- Lines that are not blank open nothing exactly if each is text. -/
theorem quiet_iff_forall_text {ls : List Text} (h : ∀ l ∈ ls, Text.blank l = false) :
    Line.Quiet ls ↔ ∀ l ∈ Line.classify ls, l.kind = .text := by
  constructor
  · intro hquiet l hl
    rw [Line.classify_of_quiet hquiet] at hl
    obtain ⟨s, hs, rfl⟩ := List.mem_map.mp hl
    simp [h s hs]
  · intro htext
    refine Line.forall_opens_classify_iff.mp fun l hl => ?_
    simp [Line.opens, htext l hl]

/-- An entry opens nothing if its first line has no kind of its own and the later lines of its
description are text. -/
theorem Normal.quiet_lines_iff (h : e.Normal) :
    Line.Quiet e.lines ↔
      Line.ownKind? e.headLine = none ∧ ∀ l ∈ Line.classify e.laterLines, l.kind = .text := by
  have hword : Section.ofWord? (Text.trim e.headLine) = none := by
    rw [h.trim_headLine]
    exact Section.ofWord?_eq_none_of_mem h.colon_mem_headLine (by decide)
  have hown : Line.opensAlone e.headLine = false ↔ Line.ownKind? e.headLine = none := by
    rw [Line.opensAlone_eq_false_iff, or_iff_left]
    rcases Line.ownKind?_cases e.headLine with ⟨hb, -⟩ | ⟨-, ⟨k, -, hk⟩ | ⟨k, -, hk⟩ | hk⟩
    · simp [h.blank_headLine] at hb
    all_goals simp [hk]
  have hlater : Line.Quiet (e.laterLines.map ("    ".toList ++ ·)) ↔ Line.Quiet e.laterLines := by
    have hsame : e.laterLines.map (Text.trim ∘ ("    ".toList ++ ·)) =
        e.laterLines.map Text.trim := by
      refine List.map_congr_left fun l hl => ?_
      exact Text.trim_blank_append (by decide) l
    rw [← Line.quiet_map_trim, List.map_map, hsame, Line.quiet_map_trim]
  rw [lines, Line.quiet_cons_iff, hown, hlater,
    quiet_iff_forall_text fun l hl => (h.later_spec l hl).1]
  simp [hword]

theorem quiet_flatMap_lines_iff {es : List Entry} (h : ∀ e ∈ es, e.Normal) :
    Line.Quiet (es.flatMap lines) ↔ ∀ e ∈ es, Line.Quiet e.lines := by
  constructor
  · intro hquiet e he
    exact hquiet.of_isInfix (List.infix_of_mem_flatten (List.mem_map_of_mem he))
  · intro hquiet
    induction es with
    | nil => exact Line.quiet_nil
    | cons e es ih =>
      have hrest := ih (fun x hx => h x (List.mem_cons_of_mem _ hx))
        fun x hx => hquiet x (List.mem_cons_of_mem _ hx)
      rw [List.flatMap_cons]
      refine (hquiet e List.mem_cons_self).append hrest fun y hy => ?_
      -- the next line is the head line of the next entry
      cases es with
      | nil => simp at hy
      | cons x es =>
        obtain rfl : x.headLine = y := by simpa [lines] using hy
        exact (h x (List.mem_cons_of_mem _ List.mem_cons_self)).isUnderline_headLine

/-! ## Reading entries -/

variable {head? : Text → Option Field.Head}

/-- The item that an entry is read as, by the reader `head?` of heads. -/
def read (head? : Text → Option Field.Head) (e : Entry) : Option Item :=
  (head? e.headLine).map fun h =>
    ⟨0, { h with description := Item.appendLines h.description e.laterLines }⟩

theorem collect_of_quiet {zs : List Text} (hquiet : Line.Quiet zs)
    (hzs : ∀ s ∈ zs, Text.blank s = false) :
    (Line.classify zs).filter (!·.isBlank) = zs.map (⟨·, .text⟩) := by
  have hsame : Line.classify zs = zs.map (⟨·, .text⟩) := by
    rw [Line.classify_of_quiet hquiet]
    exact List.map_congr_left fun s hs => by simp [hzs s hs]
  rw [hsame, List.filter_eq_self]
  intro l hl
  obtain ⟨s, -, rfl⟩ := List.mem_map.mp hl
  rfl

/-- Indented lines continue an item without indentation. -/
theorem collectFrom_padded (item : Item) (hitem : item.indent = 0) {ls : List Text}
    (hls : ∀ l ∈ ls, Text.blank l = false ∧ Text.trim l = l ∧ '\n' ∉ l) (rest : List Line) :
    Item.collectFrom head? item ((ls.map ("    ".toList ++ ·)).map (⟨·, .text⟩) ++ rest) =
      Item.collectFrom head?
        { item with head.description := Item.appendLines item.head.description ls } rest := by
  have hdeep : ∀ w ∈ ls.map ("    ".toList ++ ·), item.indent < Text.indent w := by
    intro w hw
    obtain ⟨l, hl, rfl⟩ := List.mem_map.mp hw
    rw [hitem]
    exact (padded_spec (hls l hl)).2.2.2.2
  have htrim : (ls.map ("    ".toList ++ ·)).map Text.trim = ls := by
    rw [List.map_map]
    exact (List.map_congr_left fun l hl => (padded_spec (hls l hl)).2.1).trans (List.map_id ls)
  rw [Item.collectFrom_deeper head? item hdeep, htrim]

theorem Normal.indent_headLine (h : e.Normal) : Text.indent e.headLine = 0 := by
  obtain ⟨c, cs, hcs⟩ := List.exists_cons_of_ne_nil (Text.ne_nil_of_blank_eq_false h.blank_headLine)
  rw [hcs]
  refine Text.indent_cons_of_not_blank ?_ cs
  exact (Text.trim_eq_self_iff.mp h.trim_headLine).1 c (by rw [hcs]; rfl)

/-- The lines of an entry in front of others: its head ends the item before it, or all that
follows continues that item. -/
theorem Normal.collectFrom_lines (h : e.Normal) (head? : Text → Option Field.Head) (item : Item)
    (hitem : item.indent = 0) (rest : List Line) :
    (∃ next, e.read head? = some next ∧ next.indent = 0 ∧
        Item.collectFrom head? item (e.lines.map (⟨·, .text⟩) ++ rest) =
          item :: Item.collectFrom head? next rest) ∨
      e.read head? = none ∧
        (Item.collectFrom head? item (e.lines.map (⟨·, .text⟩) ++ rest)).length = 1 := by
  have hindent : Line.indent ⟨e.headLine, .text⟩ = 0 := h.indent_headLine
  have htrimmed : Line.trimmed ⟨e.headLine, .text⟩ = e.headLine := h.trim_headLine
  have hdeep : ¬ item.indent < Line.indent ⟨e.headLine, .text⟩ := by omega
  rw [lines, List.map_cons, List.cons_append, Item.collectFrom, if_neg hdeep, htrimmed, hindent]
  cases hhead : head? e.headLine with
  | some head =>
    refine .inl ⟨_, by rw [read, hhead, Option.map_some], rfl, ?_⟩
    simp only
    rw [collectFrom_padded _ rfl h.later_spec]
  | none => exact .inr ⟨by rw [read, hhead, Option.map_none], rfl⟩

/-- Entries with readable heads are read one by one after another item. -/
theorem collectFrom_of_read {es : List Entry} (h : ∀ e ∈ es, e.Normal) {f : Entry → Item}
    (hread : ∀ e ∈ es, e.read head? = some (f e)) (item : Item) (hitem : item.indent = 0) :
    Item.collectFrom head? item ((es.flatMap lines).map (⟨·, .text⟩)) = item :: es.map f := by
  induction es generalizing item with
  | nil => rfl
  | cons e es ih =>
    rw [List.flatMap_cons, List.map_append]
    rcases (h e List.mem_cons_self).collectFrom_lines head? item hitem
        ((es.flatMap lines).map (⟨·, .text⟩)) with ⟨next, hnext, hindent, hcollect⟩ | ⟨hnone, -⟩
    · obtain rfl : f e = next :=
        Option.some.inj ((hread e List.mem_cons_self).symm.trans hnext)
      rw [hcollect, ih (fun x hx => h x (List.mem_cons_of_mem _ hx))
        (fun x hx => hread x (List.mem_cons_of_mem _ hx)) _ hindent, List.map_cons]
    · rw [hread e List.mem_cons_self] at hnone
      cases hnone

/-- No head is unreadable if as many items are found as were written. -/
theorem isSome_read_of_length {es : List Entry} (h : ∀ e ∈ es, e.Normal) (item : Item)
    (hitem : item.indent = 0)
    (hlen : (Item.collectFrom head? item ((es.flatMap lines).map (⟨·, .text⟩))).length =
      es.length + 1) :
    ∀ e ∈ es, (e.read head?).isSome = true := by
  induction es generalizing item with
  | nil => simp
  | cons e es ih =>
    rw [List.flatMap_cons, List.map_append] at hlen
    rcases (h e List.mem_cons_self).collectFrom_lines head? item hitem
        ((es.flatMap lines).map (⟨·, .text⟩)) with ⟨next, hnext, hindent, hcollect⟩ | ⟨-, hone⟩
    · rw [hcollect, List.length_cons, List.length_cons] at hlen
      intro x hx
      rcases List.mem_cons.mp hx with rfl | hx
      · simp [hnext]
      · exact ih (fun y hy => h y (List.mem_cons_of_mem _ hy)) _ hindent (by omega) x hx
    · rw [hone, List.length_cons] at hlen
      omega

/-- The first of some entries starts the first item, if its head is readable. -/
theorem Normal.collectLines_lines (h : e.Normal) {item : Item} (hitem : e.read head? = some item)
    (rest : List Line) :
    item.indent = 0 ∧ Item.collectLines head? (e.lines.map (⟨·, .text⟩) ++ rest) =
      Item.collectFrom head? item rest := by
  obtain ⟨head, hhead, rfl⟩ := Option.map_eq_some_iff.mp hitem
  have hindent : Line.indent ⟨e.headLine, .text⟩ = 0 := h.indent_headLine
  have htrimmed : Line.trimmed ⟨e.headLine, .text⟩ = e.headLine := h.trim_headLine
  refine ⟨rfl, ?_⟩
  rw [lines, List.map_cons, List.cons_append, Item.collectLines, htrimmed, hhead, hindent]
  simp only
  rw [collectFrom_padded _ rfl h.later_spec]

theorem collectLines_of_read {es : List Entry} (h : ∀ e ∈ es, e.Normal) {f : Entry → Item}
    (hread : ∀ e ∈ es, e.read head? = some (f e)) :
    Item.collectLines head? ((es.flatMap lines).map (⟨·, .text⟩)) = es.map f := by
  cases es with
  | nil => rfl
  | cons e es =>
    rw [List.flatMap_cons, List.map_append]
    obtain ⟨hindent, hcollect⟩ := (h e List.mem_cons_self).collectLines_lines
      (hread e List.mem_cons_self) ((es.flatMap lines).map (⟨·, .text⟩))
    rw [hcollect, collectFrom_of_read (fun x hx => h x (List.mem_cons_of_mem _ hx))
      (fun x hx => hread x (List.mem_cons_of_mem _ hx)) _ hindent, List.map_cons]

end Entry

/-! ## Sections of entries -/

/-- The section of some entries, which is left out if there are none. -/
def entrySection (k : Section) (es : List Entry) : List Text :=
  if es.isEmpty then [] else [sectionBlock k (es.map fun e => fieldLine e.head e.description)]

theorem flatMap_split_fieldLine {es : List Entry} (h : ∀ e ∈ es, e.Normal) :
    (es.map fun e => fieldLine e.head e.description).flatMap Line.split =
      es.flatMap Entry.lines := by
  rw [List.flatMap_map]
  exact List.flatMap_congr fun e he => (h e he).split_fieldLine

theorem yields_entrySection {k : Section} {es : List Entry} (h : ∀ e ∈ es, e.Normal)
    (hne : es ≠ []) :
    (entrySection k es).flatMap yields =
      (Block.body k
          (Block.ownedLines (Block.gather (Line.classify (es.flatMap Entry.lines))).1)).yield ::
        (Block.gather (Line.classify (es.flatMap Entry.lines))).2.map Block.yield := by
  rw [entrySection, List.isEmpty_eq_false_iff.mpr hne, if_neg (by simp), List.flatMap_singleton,
    yields, Block.gather_sectionBlock, flatMap_split_fieldLine h, List.map_cons]

/-- A section of entries of which none opens anything is read as one block. -/
theorem entrySection_of_quiet {k : Section} {es : List Entry} (h : ∀ e ∈ es, e.Normal)
    (hquiet : Line.Quiet (es.flatMap Entry.lines)) :
    ((entrySection k es).flatMap yields).flatMap (·.params) =
        (Block.body k (Line.classify (es.flatMap Entry.lines))).params ∧
      ((entrySection k es).flatMap yields).findSome? (·.returned?) =
        (Block.body k (Line.classify (es.flatMap Entry.lines))).returned? ∧
      ((entrySection k es).flatMap yields).flatMap (·.errors) =
        (Block.body k (Line.classify (es.flatMap Entry.lines))).errors ∧
      ((entrySection k es).flatMap yields).flatMap (·.examples) =
        (Block.body k (Line.classify (es.flatMap Entry.lines))).examples := by
  by_cases hne : es = []
  · rw [hne]
    cases k <;> exact ⟨rfl, rfl, rfl, rfl⟩
  · have hlines := flatMap_split_fieldLine h
    rw [entrySection, List.isEmpty_eq_false_iff.mpr hne, if_neg (by simp), List.flatMap_singleton,
      yields_sectionBlock_of_quiet k (hlines.symm ▸ hquiet), hlines]
    refine ⟨?_, ?_, ?_, ?_⟩
    · simp [Block.yield]
    · cases hr : (Block.body k (Line.classify (es.flatMap Entry.lines))).returned? <;>
        simp [Block.yield, hr]
    · simp [Block.yield]
    · simp [Block.yield]

end Docstring

end ApiDocs
