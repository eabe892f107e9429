import ApiDocs.Proofs.Markdown.Chunks

/-!
# Inline elements

Text, bold text and code spans without a line break are written in the same way wherever they stand:
in a paragraph, or in an item of a list, where each line after the first one is indented. A code
span is written without regard to the indentation, so it may not have lines of its own.

* `Node.isInline`: the elements in question.
* `Markdown.indentLines`: a text with its further lines indented.
* `Markdown.output_writeNodes`: inline elements after any text, at any indentation.
* `Markdown.toMarkdown_paragraph`, `Markdown.toMarkdown_items`: paragraphs and lists of them.
* `Markdown.splitOn_items`: the lines of a list.
-/

namespace ApiDocs

mutual

/-- Whether an element is part of a text and holds no code of several lines. -/
def Node.isInline : Node → Bool
  | .text _ | .html _ => true
  | .strong children => Node.areInline children
  | .inlineCode value => !value.contains '\n'
  | .heading .. | .paragraph _ | .thematicBreak | .list _ | .listItem _ | .code .. => false

/-- Whether all elements are so. -/
def Node.areInline : List Node → Bool
  | [] => true
  | n :: rest => Node.isInline n && Node.areInline rest

end

theorem Node.areInline_append (xs ys : List Node) :
    Node.areInline (xs ++ ys) = (Node.areInline xs && Node.areInline ys) := by
  induction xs with
  | nil => simp [Node.areInline]
  | cons n xs ih => simp [Node.areInline, ih, Bool.and_assoc]

namespace Markdown

/-! ## Indented lines -/

/-- A text with each line after the first one indented. -/
def indentLines (indent : Nat) (s : Text) : Text :=
  Text.replaceChar '\n' ('\n' :: List.replicate indent ' ') s

@[simp] theorem indentLines_nil (indent : Nat) : indentLines indent [] = [] := rfl

theorem indentLines_newline (indent : Nat) (s : Text) :
    indentLines indent ('\n' :: s) = '\n' :: (List.replicate indent ' ' ++ indentLines indent s) :=
  rfl

theorem indentLines_cons (indent : Nat) {c : Char} (hc : c ≠ '\n') (s : Text) :
    indentLines indent (c :: s) = c :: indentLines indent s := by
  simp [indentLines, Text.replaceChar, hc]

@[simp] theorem indentLines_append (indent : Nat) (s t : Text) :
    indentLines indent (s ++ t) = indentLines indent s ++ indentLines indent t := by
  simp [indentLines, Text.replaceChar]

@[simp] theorem indentLines_zero (s : Text) : indentLines 0 s = s := replaceChar_self '\n' s

theorem indentLines_of_not_mem (indent : Nat) {s : Text} (h : '\n' ∉ s) :
    indentLines indent s = s := by
  induction s with
  | nil => rfl
  | cons c s ih =>
    rw [List.mem_cons, not_or] at h
    rw [indentLines_cons indent (Ne.symm h.1), ih h.2]

/-- Indentation adds blanks only: any other character at the end stays there. -/
theorem getLast?_indentLines (indent : Nat) (s : Text) {c : Char} (hc : Text.isBlank c = false) :
    (indentLines indent s).getLast? = some c ↔ s.getLast? = some c := by
  have hspace : ' ' ≠ c := by rintro rfl; simp at hc
  have hbreak : '\n' ≠ c := by rintro rfl; simp at hc
  induction s using List.reverseRecOn with
  | nil => simp
  | append_singleton s d _ =>
    rw [indentLines_append]
    by_cases hd : d = '\n'
    · subst hd
      rw [indentLines_newline, indentLines_nil, List.append_nil]
      cases indent with
      | zero => simp
      | succ n =>
        rw [List.replicate_succ', ← List.cons_append, ← List.append_assoc, List.getLast?_concat,
          List.getLast?_concat]
        simp [hspace, hbreak]
    · rw [indentLines_cons indent hd, indentLines_nil, List.getLast?_concat, List.getLast?_concat]

/-- The lines of a text, with all but the first one indented. -/
theorem indentLines_eq_intercalate (indent : Nat) {s first : Text} {more : List Text}
    (h : s.splitOn '\n' = first :: more) :
    indentLines indent s =
      "\n".toList.intercalate (first :: more.map (List.replicate indent ' ' ++ ·)) := by
  have hline : ∀ l ∈ first :: more, indentLines indent l = l := fun l hl =>
    indentLines_of_not_mem indent (Text.newline_not_mem_of_mem_splitOn (h ▸ hl))
  obtain ⟨hfirst, hmore⟩ := List.forall_mem_cons.mp hline
  have hs : s = first ++ more.flatMap ("\n".toList ++ ·) := by
    rw [← Text.intercalate_cons, ← h]
    exact (List.intercalate_splitOn '\n').symm
  rw [hs, Text.intercalate_cons, indentLines_append, hfirst, List.append_cancel_left_eq]
  clear h hs hline
  induction more with
  | nil => rfl
  | cons l more ih =>
    obtain ⟨hl, hrest⟩ := List.forall_mem_cons.mp hmore
    have hbreak : indentLines indent "\n".toList = "\n".toList ++ List.replicate indent ' ' := by
      simp [indentLines_newline]
    rw [List.flatMap_cons, List.map_cons, List.flatMap_cons, indentLines_append,
      indentLines_append, ih hrest, hl, hbreak]
    simp only [List.append_assoc]

/-! ## At any indentation -/

/-- Two writers, of which the second one has written `p` before and then the same as the first one,
with its lines indented. -/
structure Indents (p : Text) (indent : Nat) (w v : Writer) : Prop where
  output : v.output = p ++ indentLines indent w.output
  unindented : w.lineIndent = 0
  lineIndent : v.lineIndent = indent

namespace Indents

variable {p : Text} {indent : Nat} {w v : Writer}

theorem push (h : Indents p indent w v) (s : Text) : Indents p indent (w.push s) (v.push s) := by
  unfold Writer.push
  split
  · exact h
  · refine ⟨?_, h.unindented, h.lineIndent⟩
    simp only [Writer.emit, h.output, h.unindented, h.lineIndent, List.replicate_zero,
      replaceChar_self, indentLines_append, List.append_assoc]
    rfl

theorem pushCodeSpan (h : Indents p indent w v) (hp : p.getLast? ≠ some '\x60') {value : Text}
    (hvalue : '\n' ∉ value) : Indents p indent (w.pushCodeSpan value) (v.pushCodeSpan value) := by
  have hlook : (v.output.getLast? == some '\x60') = (w.output.getLast? == some '\x60') := by
    rw [h.output, Bool.eq_iff_iff, beq_iff_eq, beq_iff_eq, getLast?_append_eq_some_iff hp]
    exact getLast?_indentLines indent w.output (by decide)
  have hspan : '\n' ∉ codeSpan value := by
    simp only [codeSpan, backticks]
    split <;> simp [hvalue]
  refine ⟨?_, h.unindented, h.lineIndent⟩
  unfold Writer.pushCodeSpan
  rw [hlook]
  generalize hgap : (if w.output.getLast? == some '\x60' then " ".toList else []) = gap
  have hgap : '\n' ∉ gap := by
    rw [← hgap]
    split <;> decide
  simp [Writer.emit, h.output, indentLines_of_not_mem indent hspan,
    indentLines_of_not_mem indent hgap]

end Indents

mutual

theorem Indents.writeNode {p : Text} (hp : p.getLast? ≠ some '\x60') {indent : Nat}
    {w v : Writer} (h : Indents p indent w v) : ∀ n : Node, n.isInline = true →
      Indents p indent (writeNode w n) (writeNode v n)
  | .text value, _ | .html value, _ => by
    rw [Markdown.writeNode, Markdown.writeNode]
    exact h.push value
  | .strong children, hn => by
    rw [Node.isInline] at hn
    rw [Markdown.writeNode, Markdown.writeNode]
    exact (Indents.writeNodes hp (h.push _) children hn).push _
  | .inlineCode value, hn => by
    have hvalue : '\n' ∉ value := by simpa [Node.isInline] using hn
    rw [Markdown.writeNode, Markdown.writeNode]
    exact h.pushCodeSpan hp hvalue
  | .heading .., hn | .paragraph _, hn | .thematicBreak, hn | .list _, hn | .listItem _, hn
  | .code .., hn => by
    simp [Node.isInline] at hn

theorem Indents.writeNodes {p : Text} (hp : p.getLast? ≠ some '\x60') {indent : Nat}
    {w v : Writer} (h : Indents p indent w v) : ∀ ns : List Node, Node.areInline ns = true →
      Indents p indent (writeNodes w ns) (writeNodes v ns)
  | [], _ => by
    rw [Markdown.writeNodes, Markdown.writeNodes]
    exact h
  | n :: rest, hns => by
    rw [Node.areInline, Bool.and_eq_true] at hns
    rw [Markdown.writeNodes, Markdown.writeNodes]
    exact Indents.writeNodes hp (Indents.writeNode hp h n hns.1) rest hns.2

end

/-- Inline elements after any text, at any indentation. -/
theorem output_writeNodes {w : Writer} (hw : w.output.getLast? ≠ some '\x60') {ns : List Node}
    (hns : Node.areInline ns = true) :
    (writeNodes w ns).output = w.output ++ indentLines w.lineIndent (inline ns) := by
  have hstart : Indents w.output w.lineIndent { Writer.start with atLineStart := false } w :=
    ⟨by simp [Writer.start], rfl, rfl⟩
  exact (hstart.writeNodes hw ns hns).output

/-! ## Paragraphs and lists -/

theorem toMarkdown_paragraph {ns : List Node} (hns : Node.areInline ns = true) :
    Document.toMarkdown ⟨[.paragraph ns]⟩ = inline ns ++ "\n".toList := by
  have hns : (writeNodes .start ns).output = inline ns := by
    simpa [Writer.start] using output_writeNodes (w := .start) (by simp [Writer.start]) hns
  have hstart : Writer.start.ensureNewline = .start := rfl
  rw [Document.toMarkdown, writeBlocks, writeNode, hstart]
  simp [Writer.ensureNewline, Writer.emit, hns]

/-- An item of a list that holds a text. -/
def itemText (s : Text) : Text := "- ".toList ++ indentLines 2 s

theorem writeItems_paragraphs {items : List (List Node)}
    (h : ∀ ns ∈ items, Node.areInline ns = true) (w : Writer) :
    (writeItems w (items.map fun ns => .listItem [.paragraph ns])).output =
      w.output ++ items.flatMap fun ns => itemText (inline ns) ++ "\n".toList := by
  induction items generalizing w with
  | nil => simp [writeItems]
  | cons ns items ih =>
    obtain ⟨hns, hrest⟩ := List.forall_mem_cons.mp h
    let opened : Writer := { w.emit "- ".toList false with lineIndent := 2 }
    have hitem : (writeNodes opened ns).output =
        w.output ++ "- ".toList ++ indentLines 2 (inline ns) :=
      output_writeNodes (w := opened) (by simp [opened, Writer.emit]) hns
    rw [List.map_cons, writeItems, ih hrest, writeItemParts, writeItemParts]
    change (writeNodes opened ns).output ++ "\n".toList ++ _ = _
    rw [hitem]
    simp [itemText]

/-- A list of paragraphs: one item for each. -/
theorem toMarkdown_items {items : List (List Node)} (h : ∀ ns ∈ items, Node.areInline ns = true) :
    Document.toMarkdown ⟨[.list (items.map fun ns => .listItem [.paragraph ns])]⟩ =
      items.flatMap fun ns => itemText (inline ns) ++ "\n".toList := by
  have hitems := writeItems_paragraphs h .start
  have hstart : Writer.start.ensureNewline = .start := rfl
  rw [Document.toMarkdown, writeBlocks, writeNode, hstart]
  simpa [Writer.ensureNewline, Writer.start] using hitems

/-! ## The lines of a list -/

/-- The lines of an item: the first one starts with the bullet, each other one is indented. -/
def itemLines (s : Text) : List Text :=
  match s.splitOn '\n' with
  | [] => []
  | first :: more => ("- ".toList ++ first) :: more.map ("  ".toList ++ ·)

theorem splitOn_itemText (s : Text) : (itemText s).splitOn '\n' = itemLines s := by
  obtain ⟨first, more, hs⟩ := List.exists_cons_of_ne_nil (List.splitOn_ne_nil '\n' s)
  have hline : ∀ l ∈ first :: more, '\n' ∉ l := fun l hl =>
    Text.newline_not_mem_of_mem_splitOn (hs ▸ hl)
  obtain ⟨hfirst, hmore⟩ := List.forall_mem_cons.mp hline
  have hlines : itemText s = "\n".toList.intercalate (itemLines s) := by
    rw [itemText, itemLines, hs, indentLines_eq_intercalate 2 hs, Text.intercalate_cons,
      Text.intercalate_cons, List.append_assoc]
    rfl
  rw [hlines]
  refine List.splitOn_intercalate _ ?_ (by simp [itemLines, hs])
  rw [itemLines, hs]
  refine List.forall_mem_cons.mpr ⟨by simp [hfirst], ?_⟩
  intro m hm
  obtain ⟨l, hl, rfl⟩ := List.mem_map.mp hm
  simp [hmore l hl]

theorem splitOn_items (texts : List Text) :
    (texts.flatMap fun s => itemText s ++ "\n".toList).splitOn '\n' =
      texts.flatMap itemLines ++ [[]] := by
  induction texts with
  | nil => rfl
  | cons s texts ih =>
    have hline : (itemText s ++ '\n' :: texts.flatMap fun s => itemText s ++ "\n".toList).splitOn
        '\n' = itemLines s ++ (texts.flatMap itemLines ++ [[]]) := by
      rw [List.splitOn_append_cons_self, ih, splitOn_itemText]
    simpa using hline

/-- One line of an item starts with the bullet, and every other one with two blanks. -/
theorem itemLines_spec (s : Text) :
    (itemLines s).countP ("- ".toList.isPrefixOf ·) = 1 ∧
      ∀ l ∈ itemLines s, "- ".toList <+: l ∨ "  ".toList <+: l := by
  obtain ⟨first, more, hs⟩ := List.exists_cons_of_ne_nil (List.splitOn_ne_nil '\n' s)
  rw [itemLines, hs]
  constructor
  · have hmore : (more.map ("  ".toList ++ ·)).countP ("- ".toList.isPrefixOf ·) = 0 := by
      rw [List.countP_eq_zero]
      intro m hm
      obtain ⟨l, -, rfl⟩ := List.mem_map.mp hm
      simp
    rw [List.countP_cons, hmore]
    simp
  · refine List.forall_mem_cons.mpr ⟨.inl (List.prefix_append _ _), ?_⟩
    intro m hm
    obtain ⟨l, -, rfl⟩ := List.mem_map.mp hm
    exact .inr (List.prefix_append _ _)

end Markdown

end ApiDocs
