import ApiDocs.Proofs.Docstring.Sections

/-!
# Indented docstrings and line endings

A docstring stands in the code that it documents, indented as the code is, and with the line
endings of the machine on which it was written. Neither is seen by the reader: kinds of lines
depend on trimmed lines only, and where indentation counts, it is compared with other indentation
of the same text.

* `Text.relaid`: a text with the same indentation before each line, and with other line endings.
* `Line.split_relaid`: its lines.
* `Line.classify_map_append`: indented lines keep their kinds.
* `Item.collect_map_indented`: items move with their lines.
* `Example.dedent_map_append`: the margin takes up the indentation.
* `Docstring.parse_relaid`: what is read from such a text.
-/

namespace ApiDocs

namespace Text

/-! ## Texts laid out anew -/

/-- The text from some place on, with `w` after each line break, of which the one with number `i`
is written with a carriage return if `crlf i` holds. -/
def relaidFrom (w : Text) : (Nat → Bool) → Text → Text
  | _, [] => []
  | crlf, c :: s =>
    if c = '\n' then
      (if crlf 0 then "\r\n".toList else "\n".toList) ++ w ++ relaidFrom w (fun i => crlf (i + 1)) s
    else c :: relaidFrom w crlf s

/-- The text with `w` in front of each line, and with the line endings that `crlf` chooses. -/
def relaid (w : Text) (crlf : Nat → Bool) (s : Text) : Text := w ++ relaidFrom w crlf s

/-! ## Indentation in front -/

theorem blank_append_of_blank {w : Text} (hw : blank w = true) (s : Text) :
    blank (w ++ s) = blank s := by
  rw [blank_append, hw, Bool.true_and]

end Text

namespace Line

/-! ## Lines of a text laid out anew -/

theorem dropReturn_cons {c : Char} (hc : c ≠ '\r') (s : Text) :
    dropReturn (c :: s) = c :: dropReturn s := by
  cases s with
  | nil => simp [dropReturn, hc]
  | cons d s =>
    simp only [dropReturn, List.getLast?_cons_cons, List.dropLast_cons_cons]
    split <;> rfl

theorem split_cons {c : Char} (hnl : c ≠ '\n') (hcr : c ≠ '\r') {s first : Text}
    {more : List Text} (hs : split s = first :: more) :
    split (c :: s) = (c :: first) :: more := by
  obtain ⟨f, m, hfm⟩ := List.exists_cons_of_ne_nil (List.splitOn_ne_nil '\n' s)
  rw [split, hfm, List.map_cons] at hs
  obtain ⟨rfl, rfl⟩ := List.cons.inj hs
  rw [split, List.splitOn_cons_eq_if_modifyHead, if_neg (by simpa using hnl), hfm,
    List.modifyHead_cons, List.map_cons, dropReturn_cons hcr]

theorem split_of_line {s : Text} (hnl : '\n' ∉ s) (hcr : '\r' ∉ s) : split s = [s] := by
  have hlast : s.getLast? ≠ some '\r' := fun h => hcr (List.mem_of_getLast? h)
  rw [split, List.splitOn_eq_singleton hnl, List.map_singleton, dropReturn_eq_self_iff.mpr hlast]

/-- The line that is being written is completed, and each line below it is indented. -/
theorem split_append_relaidFrom {w : Text} (hw : '\n' ∉ w ∧ '\r' ∉ w) {s : Text} (hs : '\r' ∉ s)
    (crlf : Nat → Bool) {p : Text} (hp : '\n' ∉ p ∧ '\r' ∉ p) :
    ∃ first more, split s = first :: more ∧
      split (p ++ Text.relaidFrom w crlf s) = (p ++ first) :: more.map (w ++ ·) := by
  induction s generalizing crlf p with
  | nil =>
    refine ⟨[], [], by simp [split, dropReturn, List.splitOn_nil], ?_⟩
    rw [Text.relaidFrom, List.append_nil, split_of_line hp.1 hp.2, List.map_nil]
  | cons c s ih =>
    have hs' : '\r' ∉ s := fun h => hs (List.mem_cons_of_mem _ h)
    by_cases hc : c = '\n'
    · subst hc
      obtain ⟨first, more, hsplit, hrest⟩ := ih hs' (fun i => crlf (i + 1)) hw
      -- the line ends here, with or without a carriage return
      have hline : split (p ++ if crlf 0 then ['\r'] else []) = [p] := by
        cases crlf 0 with
        | false => simpa using split_of_line hp.1 hp.2
        | true =>
          have hnl : '\n' ∉ p ++ ['\r'] := by simp [hp.1]
          simp [split, List.splitOn_eq_singleton hnl]
      have hsame : p ++ Text.relaidFrom w crlf ('\n' :: s) =
          (p ++ if crlf 0 then ['\r'] else []) ++
            '\n' :: (w ++ Text.relaidFrom w (fun i => crlf (i + 1)) s) := by
        cases hcrlf : crlf 0 <;> simp [Text.relaidFrom, hcrlf]
      refine ⟨[], first :: more, ?_, ?_⟩
      · have hnil := split_append [] s
        rw [List.nil_append, hsplit] at hnil
        exact hnil
      · rw [hsame, split_append, hline, hrest, List.append_nil]
        rfl
    · have hcr : c ≠ '\r' := by
        rintro rfl
        exact hs List.mem_cons_self
      obtain ⟨first, more, hsplit, hrest⟩ := ih hs' crlf (p := p ++ [c])
        (by simp [hp.1, hp.2, Ne.symm hc, Ne.symm hcr])
      refine ⟨c :: first, more, split_cons hc hcr hsplit, ?_⟩
      rw [Text.relaidFrom, if_neg hc]
      simpa using hrest

/-- The lines of a text that is laid out anew are its lines, each indented. -/
theorem split_relaid {w : Text} (hw : '\n' ∉ w ∧ '\r' ∉ w) {s : Text} (hs : '\r' ∉ s)
    (crlf : Nat → Bool) : split (Text.relaid w crlf s) = (split s).map (w ++ ·) := by
  obtain ⟨first, more, hsplit, hrest⟩ := split_append_relaidFrom hw hs crlf hw
  rw [Text.relaid, hrest, hsplit, List.map_cons]

/-! ## Indented lines -/

/-- The line with `w` in front of it. -/
def indented (w : Text) (l : Line) : Line := { l with text := w ++ l.text }

variable {w : Text}

@[simp] theorem kind_indented (w : Text) (l : Line) : (indented w l).kind = l.kind := rfl

@[simp] theorem isBlank_indented (w : Text) (l : Line) : (indented w l).isBlank = l.isBlank := rfl

@[simp] theorem opens_indented (w : Text) (l : Line) : (indented w l).opens = l.opens := rfl

theorem trimmed_indented (hw : Text.blank w = true) (l : Line) :
    (indented w l).trimmed = l.trimmed :=
  Text.trim_blank_append hw l.text

theorem indent_indented (hw : Text.blank w = true) (l : Line) :
    (indented w l).indent = w.length + l.indent :=
  Text.indent_blank_append hw l.text

/-- Indented lines keep their kinds. -/
theorem classify_map_append (hw : Text.blank w = true) (xs : List Text) :
    classify (xs.map (w ++ ·)) = (classify xs).map (indented w) := by
  have htrim : ∀ s, Text.trim (w ++ s) = Text.trim s := Text.trim_blank_append hw
  have hkind : ∀ s, ownKind? (w ++ s) = ownKind? s := fun s => by
    rw [← ownKind?_trim, htrim, ownKind?_trim]
  have hunderline : ∀ s, isUnderline (w ++ s) = isUnderline s := fun s => by
    rw [← isUnderline_trim, htrim, isUnderline_trim]
  fun_induction classify xs with
  | case1 => rfl
  | case2 s => simp [classify, hkind, indented]
  | case3 s next rest kind hk ih =>
    rw [List.map_cons, classify_cons_of_ownKind? ((hkind s).trans hk), ih]
    rfl
  | case4 s next rest k hnext hs _ ih =>
    rw [List.map_cons, List.map_cons, classify_cons_underlined ((htrim s).symm ▸ hs)
      ((hunderline next).trans hnext), ih]
    rfl
  | case5 s next rest hk hne ih =>
    rw [List.map_cons, classify_cons_text ((hkind s).trans hk), ih]
    · rfl
    · intro y hy hword
      obtain rfl : w ++ next = y := by simpa using hy
      rw [htrim] at hword
      obtain ⟨k, hs⟩ := Option.isSome_iff_exists.mp hword
      simpa [hunderline] using hne k hs

end Line

namespace Item

/-! ## Items of indented lines -/

variable {w : Text}

/-- The item with more indentation. -/
def moved (n : Nat) (i : Item) : Item := { i with indent := n + i.indent }

theorem continued_moved (hw : Text.blank w = true) (i : Item) (l : Line) :
    (i.moved w.length).continued (l.indented w) = (i.continued l).moved w.length := by
  simp only [continued, moved, Line.trimmed_indented hw]

theorem foldl_continued_moved (hw : Text.blank w = true) (i : Item) (ls : List Line) :
    (ls.map (Line.indented w)).foldl continued (i.moved w.length) =
      (ls.foldl continued i).moved w.length := by
  induction ls generalizing i with
  | nil => rfl
  | cons l ls ih => rw [List.map_cons, List.foldl_cons, continued_moved hw, ih, List.foldl_cons]

variable (head? : Text → Option Field.Head)

theorem collectFrom_map_indented (hw : Text.blank w = true) (i : Item) (ls : List Line) :
    collectFrom head? (i.moved w.length) (ls.map (Line.indented w)) =
      (collectFrom head? i ls).map (moved w.length) := by
  have hdeeper : ∀ (i : Item) (l : Line),
      (i.moved w.length).indent < (l.indented w).indent ↔ i.indent < l.indent := by
    intro i l
    rw [Line.indent_indented hw, moved]
    exact Nat.add_lt_add_iff_left
  have hhead : ∀ (l : Line) (head : Field.Head),
      (⟨(l.indented w).indent, head⟩ : Item) = moved w.length ⟨l.indent, head⟩ := by
    intro l head
    rw [Line.indent_indented hw, moved]
  fun_induction collectFrom head? i ls with
  | case1 i => rfl
  | case2 i l rest hdeep ih =>
    rw [List.map_cons, collectFrom, if_pos ((hdeeper i l).mpr hdeep), continued_moved hw, ih]
  | case3 i l rest hdeep head hsome ih =>
    rw [List.map_cons, collectFrom, if_neg (mt (hdeeper i l).mp hdeep), Line.trimmed_indented hw,
      hsome]
    simp only [hhead, ih, List.map_cons]
  | case4 i l rest hdeep hnone =>
    rw [List.map_cons, collectFrom, if_neg (mt (hdeeper i l).mp hdeep), Line.trimmed_indented hw,
      hnone]
    simp only [continued_moved hw, foldl_continued_moved hw, List.map_cons, List.map_nil]

theorem collectLines_map_indented (hw : Text.blank w = true) (ls : List Line) :
    collectLines head? (ls.map (Line.indented w)) =
      (collectLines head? ls).map (moved w.length) := by
  fun_induction collectLines head? ls with
  | case1 => rfl
  | case2 l rest head hsome =>
    rw [List.map_cons, collectLines, Line.trimmed_indented hw, hsome, ← collectFrom_map_indented
      head? hw]
    simp only [Line.indent_indented hw, moved]
  | case3 l rest hnone ih =>
    rw [List.map_cons, collectLines, Line.trimmed_indented hw, hnone]
    exact ih

/-- Items move with their lines. -/
theorem collect_map_indented (hw : Text.blank w = true) (body : List Line) :
    collect head? (body.map (Line.indented w)) = (collect head? body).map (moved w.length) := by
  rw [collect, List.filter_map, collect, ← collectLines_map_indented head? hw]
  rfl

theorem returned?_map_indented (hw : Text.blank w = true) (body : List Line) :
    returned? (body.map (Line.indented w)) = returned? body := by
  have hlines : ((body.map (Line.indented w)).filter (!·.isBlank)).map (·.trimmed) =
      (body.filter (!·.isBlank)).map (·.trimmed) := by
    rw [List.filter_map, List.map_map]
    exact List.map_congr_left fun l _ => Line.trimmed_indented hw l
  simp only [returned?, hlines]

end Item

namespace Example

/-! ## Code in indented lines -/

variable {w : Text}

theorem margin_map_append (hw : Text.blank w = true) {ls : List Text} {l : Text} (hl : l ∈ ls)
    (hb : Text.blank l = false) : margin (ls.map (w ++ ·)) = w.length + margin ls := by
  have hblank : ∀ s, Text.blank (w ++ s) = Text.blank s := Text.blank_append_of_blank hw
  have hindent : ∀ s, Text.indent (w ++ s) = w.length + Text.indent s :=
    Text.indent_blank_append hw
  apply Nat.le_antisymm
  · obtain ⟨m, hm, hmb, hmargin⟩ := exists_margin hl hb
    rw [← hmargin, ← hindent]
    exact margin_le (List.mem_map_of_mem hm) ((hblank m).trans hmb)
  · obtain ⟨n, hn, hnb, hmargin⟩ := exists_margin (List.mem_map_of_mem (f := (w ++ ·)) hl)
      ((hblank l).trans hb)
    obtain ⟨m, hm, rfl⟩ := List.mem_map.mp hn
    rw [← hmargin, hindent]
    exact Nat.add_le_add_left (margin_le hm ((hblank m).symm.trans hnb)) _

theorem strip_map {α β : Type} {p : β → Bool} (f : α → β) (l : List α) :
    strip p (l.map f) = (strip (p ∘ f) l).map f := by
  rw [strip, List.dropWhile_map, List.rdropWhile, ← List.map_reverse, List.dropWhile_map,
    ← List.map_reverse]
  rfl

/-- The margin takes up the indentation of all lines. -/
theorem dedent_map_append (hw : Text.blank w = true) (ls : List Text) :
    dedent (ls.map (w ++ ·)) = dedent ls := by
  have hblank : Text.blank ∘ (w ++ ·) = Text.blank :=
    funext (Text.blank_append_of_blank hw)
  rw [dedent_eq, dedent_eq, dedentedLines, strip_map, hblank, List.map_map, dedentedLines]
  congr 1
  refine List.map_congr_left fun l hl => ?_
  cases hb : Text.blank l with
  | true => simp [hw, hb]
  | false =>
    have hdrop : (w ++ l).drop (w.length + margin (strip Text.blank ls)) =
        l.drop (margin (strip Text.blank ls)) := List.drop_length_add_append ..
    simp [hw, hb, margin_map_append hw hl hb, hdrop]

theorem splitAtDirectives_map_append (hw : Text.blank w = true) (ls : List Text) :
    splitAtDirectives (ls.map (w ++ ·)) =
      ((splitAtDirectives ls).1.map (w ++ ·),
        (splitAtDirectives ls).2.map fun g => (g.1, g.2.map (w ++ ·))) := by
  induction ls with
  | nil => rfl
  | cons s ls ih =>
    have hdirective : directive? (w ++ s) = directive? s := by
      rw [← directive?_trim, Text.trim_blank_append hw, directive?_trim]
    rw [List.map_cons, splitAtDirectives, ih, hdirective, splitAtDirectives]
    cases directive? s <;> rfl

theorem blocks_map_indented (hw : Text.blank w = true) (body : List Line) :
    blocks (body.map (Line.indented w)) = blocks body := by
  have htexts : (body.map (Line.indented w)).map (·.text) =
      (body.map (·.text)).map (w ++ ·) := by
    rw [List.map_map, List.map_map]
    rfl
  unfold blocks
  rw [htexts, splitAtDirectives_map_append hw]
  simp only [List.map_cons, List.map_map, dedent_map_append hw, Function.comp_def]

end Example

namespace Block

/-! ## Blocks of indented lines -/

variable {w : Text}

/-- The block of indented lines. A field has trimmed lines only. -/
def indented (w : Text) : Block → Block
  | body k lines => body k (lines.map (Line.indented w))
  | field k first continuation => field k first continuation

theorem yield_indented (hw : Text.blank w = true) (b : Block) :
    (b.indented w).yield = b.yield := by
  cases b with
  | field k first continuation => rfl
  | body k lines =>
    have hparams : Item.params (lines.map (Line.indented w)) = Item.params lines := by
      rw [Item.params, Item.collect_map_indented _ hw, List.map_map]
      rfl
    have herrors : Item.errors (lines.map (Line.indented w)) = Item.errors lines := by
      rw [Item.errors, Item.collect_map_indented _ hw, List.map_map]
      rfl
    cases k <;>
      simp [yield, indented, params, returned?, errors, examples, hparams, herrors,
        Item.returned?_map_indented hw, Example.blocks_map_indented hw]

theorem opened?_indented (hw : Text.blank w = true) (l : Line) (following : List Line) :
    opened? (l.indented w) (following.map (Line.indented w)) =
      (opened? l following).map (indented w) := by
  have howned : ownedLines (following.map (Line.indented w)) =
      (ownedLines following).map (Line.indented w) := by
    rw [ownedLines, List.filter_map]
    rfl
  unfold opened?
  rw [Line.kind_indented, howned, Line.trimmed_indented hw]
  cases l.kind with
  | header k => rfl
  | field k =>
    simp only [Option.map_some, indented, List.takeWhile_map, List.map_map]
    congr 2
    exact List.map_congr_left fun m _ => Line.trimmed_indented hw m
  | blank | underline | text => rfl

theorem gather_map_indented (hw : Text.blank w = true) (ls : List Line) :
    gather (ls.map (Line.indented w)) =
      ((gather ls).1.map (Line.indented w), (gather ls).2.map (indented w)) := by
  induction ls with
  | nil => rfl
  | cons l ls ih =>
    rw [List.map_cons, gather, ih, gather]
    simp only [opened?_indented hw]
    cases opened? l (gather ls).1 <;> rfl

end Block

namespace Docstring

/-! ## Docstrings laid out anew -/

theorem yields_relaid {w : Text} (hw : ∀ c ∈ w, Text.isBlank c = true ∧ c ≠ '\n' ∧ c ≠ '\r')
    {s : Text} (hs : '\r' ∉ s) (crlf : Nat → Bool) : yields (Text.relaid w crlf s) = yields s := by
  have hblank : Text.blank w = true := Text.blank_iff.mpr fun c hc => (hw c hc).1
  have hline : '\n' ∉ w ∧ '\r' ∉ w := ⟨fun h => (hw _ h).2.1 rfl, fun h => (hw _ h).2.2 rfl⟩
  rw [yields, Line.ofText, Line.split_relaid hline hs, Line.classify_map_append hblank,
    Block.gather_map_indented hblank, List.map_map, yields, Line.ofText]
  exact List.map_congr_left fun b _ => Block.yield_indented hblank b

/-- **Layout is not read.** When each line of a text is indented by the same blanks, and when some
line breaks are written with a carriage return, the same things are documented, with the same
example code. Other line endings alone leave the description as it is, too. -/
theorem parse_relaid {w s : Text} (hs : '\r' ∉ s)
    (hw : ∀ c ∈ w, Text.isBlank c = true ∧ c ≠ '\n' ∧ c ≠ '\r') (crlf : Nat → Bool) :
    (parse (Text.relaid w crlf s)).params = (parse s).params ∧
      (parse (Text.relaid w crlf s)).returns = (parse s).returns ∧
      (parse (Text.relaid w crlf s)).raises = (parse s).raises ∧
      (parse (Text.relaid w crlf s)).exampleBlocks = (parse s).exampleBlocks ∧
      (parse (Text.relaid w crlf s)).examples = (parse s).examples ∧
      (w = [] → (parse (Text.relaid w crlf s)).description = (parse s).description) := by
  have hyields := yields_relaid hw hs crlf
  rw [parse_eq (Text.relaid w crlf s), parse_eq s, hyields]
  refine ⟨rfl, rfl, rfl, rfl, rfl, ?_⟩
  rintro rfl
  have hlines : Line.ofText (Text.relaid [] crlf s) = Line.ofText s := by
    rw [Line.ofText, Line.split_relaid (by simp) hs, Line.ofText]
    simp
  simp only [parse, hlines]

/-- A docstring with tabs before its lines, of which every second one ends in a carriage return. -/
theorem parse_relaid_tabs :
    let s := "Sum.\nArgs:\n  a: x\n    y\nExample:\n    f()".toList
    let t := "\t Sum.\r\n\t Args:\n\t   a: x\r\n\t     y\n\t Example:\r\n\t     f()".toList
    Text.relaid "\t ".toList (· % 2 == 0) s = t ∧
      (parse t).params = [⟨"a".toList, [], "x y".toList⟩] ∧
      (parse t).exampleBlocks = [⟨none, "f()".toList⟩] := by
  intro s t
  have hlaid : Text.relaid "\t ".toList (· % 2 == 0) s = t := by decide
  have hparse := parse_relaid (w := "\t ".toList) (s := s) (by decide)
    (by simp [Text.isBlank]) (· % 2 == 0)
  rw [hlaid] at hparse
  refine ⟨hlaid, ?_, ?_⟩
  · rw [hparse.1]
    decide
  · rw [hparse.2.2.2.1]
    decide

end Docstring

end ApiDocs
