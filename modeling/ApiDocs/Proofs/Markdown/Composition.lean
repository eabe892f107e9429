import ApiDocs.Proofs.Markdown.Chunks

/-!
# Documents block by block

The writer carries more than what it has written: whether it stands at the start of a line, and how
far the lines of an item are indented. It also looks back, at the last character before a code span
and at whether anything has been written before a line break. None of this reaches from one block of
a document to the next.

Two writers are compared that are at the same point, except that one of them has written more
before. They stay together whatever is written, as long as the text that only one of them has does
not end with a backtick. Between two blocks it ends with a line break.

* `Markdown.Follows`: a writer that is as far as another one, after a text of its own.
* `Markdown.Follows.keeps`: whatever is written, it stays so.
* `Markdown.Settled`: what holds of the writer between two blocks.
* `Markdown.toMarkdown_concat`: a document with one more block.
* `Markdown.toMarkdown_block_by_block`: each block is written as if it were alone.
-/

namespace ApiDocs

namespace Markdown

/-! ## Writers that stay together -/

/-- Two writers at the same point, of which the second one has written `p` before. A writer that
has written nothing stands at the start of a line. -/
structure Follows (p : Text) (w v : Writer) : Prop where
  output : v.output = p ++ w.output
  atLineStart : v.atLineStart = w.atLineStart
  lineIndent : v.lineIndent = w.lineIndent
  start : w.output = [] → w.atLineStart = true

namespace Follows

variable {p : Text} {w v : Writer}

theorem emit (h : Follows p w v) {s : Text} (hs : s ≠ []) (b : Bool) :
    Follows p (w.emit s b) (v.emit s b) := by
  refine ⟨?_, rfl, h.lineIndent, ?_⟩
  · simp [Writer.emit, h.output]
  · intro hnil
    exact absurd (List.append_eq_nil_iff.mp hnil).2 hs

theorem emitInLine (h : Follows p w v) {s : Text} (hs : s ≠ []) :
    Follows p (w.emit s w.atLineStart) (v.emit s v.atLineStart) := by
  rw [h.atLineStart]
  exact h.emit hs _

theorem push (h : Follows p w v) (s : Text) : Follows p (w.push s) (v.push s) := by
  unfold Writer.push
  split
  · exact h
  · rename_i hne
    rw [h.lineIndent]
    refine h.emit ?_ _
    -- every character of a text is written as one character at least
    cases s with
    | nil => simp at hne
    | cons c s =>
      rw [Text.replaceChar, List.flatMap_cons]
      split <;> simp

theorem ensureNewline (h : Follows p w v) : Follows p w.ensureNewline v.ensureNewline := by
  unfold Writer.ensureNewline
  cases hline : w.atLineStart with
  | true => simpa [h.atLineStart, hline] using h
  | false =>
    have hout : w.output ≠ [] := fun hnil => by simp [h.start hnil] at hline
    have hmore : v.output ≠ [] := by simp [h.output, hout]
    rw [h.atLineStart, hline, List.isEmpty_eq_false_iff.mpr hout,
      List.isEmpty_eq_false_iff.mpr hmore]
    exact h.emit (s := "\n".toList) (by decide) true

theorem pushCodeSpan (h : Follows p w v) (hp : p.getLast? ≠ some '\x60') (value : Text) :
    Follows p (w.pushCodeSpan value) (v.pushCodeSpan value) := by
  have hlook : (v.output.getLast? == some '\x60') = (w.output.getLast? == some '\x60') := by
    rw [h.output, Bool.eq_iff_iff, beq_iff_eq, beq_iff_eq]
    exact getLast?_append_eq_some_iff hp w.output
  have hspan : codeSpan value ≠ [] := by simp [codeSpan, backticks]
  unfold Writer.pushCodeSpan
  rw [hlook]
  exact h.emit (by simp [hspan]) false

theorem startLine (h : Follows p w v) :
    Follows p { w with atLineStart := true } { v with atLineStart := true } :=
  ⟨h.output, rfl, h.lineIndent, fun _ => rfl⟩

theorem withIndent (h : Follows p w v) (n : Nat) :
    Follows p { w with lineIndent := n } { v with lineIndent := n } :=
  ⟨h.output, h.atLineStart, rfl, h.start⟩

/-- Whatever is written, the two writers stay together. -/
theorem keeps (hp : p.getLast? ≠ some '\x60') : Keeps (Follows p) where
  emit h hs := h.emit hs
  emitInLine h hs := h.emitInLine hs
  push := push
  pushCodeSpan h := h.pushCodeSpan hp
  ensureNewline := ensureNewline
  startLine := startLine
  withIndent := withIndent

end Follows

/-! ## Indentation

Only a list changes the indentation of lines, and after each of its items there is none. -/

@[simp] theorem lineIndent_push (w : Writer) (s : Text) :
    (w.push s).lineIndent = w.lineIndent := by
  unfold Writer.push
  split <;> rfl

@[simp] theorem lineIndent_ensureNewline (w : Writer) :
    w.ensureNewline.lineIndent = w.lineIndent := by
  unfold Writer.ensureNewline
  split <;> rfl

mutual

theorem lineIndent_writeNode (w : Writer) :
    ∀ n : Node, (writeNode w n).lineIndent ≤ w.lineIndent
  | .heading depth children => by
    rw [writeNode]
    exact (lineIndent_writeNodes _ children).trans (lineIndent_ensureNewline w).le
  | .paragraph children => by
    rw [writeNode]
    exact (lineIndent_writeNodes _ children).trans (lineIndent_ensureNewline w).le
  | .thematicBreak => by
    rw [writeNode]
    exact (lineIndent_ensureNewline w).le
  | .list items => by
    rw [writeNode]
    exact (lineIndent_writeItems _ items).trans (lineIndent_ensureNewline w).le
  | .listItem _ => by
    rw [writeNode]
  | .code lang value => by
    rw [writeNode]
    exact (lineIndent_ensureNewline w).le
  | .text value => by
    rw [writeNode]
    exact (lineIndent_push w value).le
  | .strong children => by
    rw [writeNode, lineIndent_push]
    exact (lineIndent_writeNodes _ children).trans (lineIndent_push w _).le
  | .inlineCode value => by
    rw [writeNode]
    exact Nat.le_refl w.lineIndent
  | .html value => by
    rw [writeNode]
    exact (lineIndent_push w value).le

theorem lineIndent_writeNodes (w : Writer) :
    ∀ ns : List Node, (writeNodes w ns).lineIndent ≤ w.lineIndent
  | [] => by
    rw [writeNodes]
  | n :: rest => by
    rw [writeNodes]
    exact (lineIndent_writeNodes _ rest).trans (lineIndent_writeNode w n)

theorem lineIndent_writeItems (w : Writer) :
    ∀ ns : List Node, (writeItems w ns).lineIndent ≤ w.lineIndent
  | [] => by
    rw [writeItems]
  | .listItem children :: rest => by
    rw [writeItems]
    exact (lineIndent_writeItems _ rest).trans (Nat.zero_le _)
  | .heading .. :: rest | .paragraph .. :: rest | .thematicBreak :: rest | .list .. :: rest
  | .code .. :: rest | .text .. :: rest | .strong .. :: rest | .inlineCode .. :: rest
  | .html .. :: rest => by
    rw [writeItems]
    · exact lineIndent_writeItems w rest
    · simp

end

/-! ## Between two blocks -/

/-- What holds of the writer between two blocks: no line is indented, and it knows whether it stands
at the start of a line. Inside a heading or an item it may be wrong about the latter. -/
structure Settled (w : Writer) : Prop where
  lineIndent : w.lineIndent = 0
  start : w.output = [] → w.atLineStart = true
  ended : w.atLineStart = true → w.output = [] ∨ w.output.getLast? = some '\n'

theorem getLast?_fencedBlock (lang : Option Text) (value : Text) :
    (fencedBlock lang value).getLast? = some '\n' := by
  rw [fencedBlock]
  exact List.getLast?_concat

/-- What is written of a list ends its line. -/
theorem ended_writeItems {w : Writer} (h : w.output = [] ∨ w.output.getLast? = some '\n') :
    ∀ ns : List Node,
      (writeItems w ns).output = [] ∨ (writeItems w ns).output.getLast? = some '\n'
  | [] => by
    rw [writeItems]
    exact h
  | .listItem children :: rest => by
    rw [writeItems]
    exact ended_writeItems (.inr (by simp [Writer.emit])) rest
  | .heading .. :: rest | .paragraph .. :: rest | .thematicBreak :: rest | .list .. :: rest
  | .code .. :: rest | .text .. :: rest | .strong .. :: rest | .inlineCode .. :: rest
  | .html .. :: rest => by
    rw [writeItems]
    · exact ended_writeItems h rest
    · simp

namespace Settled

theorem startOfText : Settled .start := ⟨rfl, fun _ => rfl, fun _ => .inl rfl⟩

variable {w : Writer}

theorem follows (h : Settled w) : Follows [] w w := ⟨rfl, rfl, rfl, h.start⟩

theorem ensureNewline (h : Settled w) :
    w.ensureNewline.atLineStart = true ∧
      (w.ensureNewline.output = [] ∨ w.ensureNewline.output.getLast? = some '\n') := by
  unfold Writer.ensureNewline
  cases hline : w.atLineStart with
  | true => simpa [hline] using h.ended hline
  | false =>
    have hout : w.output ≠ [] := fun hnil => by simp [h.start hnil] at hline
    simp [hout, Writer.emit]

/-- A text that ends its line exactly if it says so. -/
theorem ended_push (h : Settled w) (s : Text) (hline : (w.push s).atLineStart = true) :
    (w.push s).output = [] ∨ (w.push s).output.getLast? = some '\n' := by
  unfold Writer.push at hline ⊢
  split
  · rename_i hnil
    rw [if_pos hnil] at hline
    exact h.ended hline
  · rename_i hne
    rw [if_neg hne] at hline
    have hlast : s.getLast? = some '\n' := by simpa [Writer.emit] using hline
    have hs : s ≠ [] := by simpa using hne
    refine .inr ?_
    rw [h.lineIndent]
    simp [Writer.emit, List.getLast?_append_of_ne_nil _ hs, hlast]

/-- One element written between two blocks. -/
theorem writeNode (h : Settled w) (n : Node) : Settled (writeNode w n) := by
  have hindent := lineIndent_writeNode w n
  rw [h.lineIndent, Nat.le_zero] at hindent
  refine ⟨hindent, ((Follows.keeps (by simp)).writeNode h.follows n).start, ?_⟩
  cases n with
  | heading | paragraph | thematicBreak =>
    intro _
    rw [Markdown.writeNode]
    exact .inr (by simp [Writer.emit])
  | code lang value =>
    intro _
    rw [Markdown.writeNode]
    exact .inr (by simp [Writer.emit, List.getLast?_append, getLast?_fencedBlock])
  | list items =>
    intro _
    rw [Markdown.writeNode]
    exact ended_writeItems h.ensureNewline.2 items
  | listItem =>
    rw [Markdown.writeNode]
    exact h.ended
  | text value | html value =>
    rw [Markdown.writeNode]
    exact h.ended_push value
  | strong children =>
    intro hline
    simp [Markdown.writeNode, Writer.push, Writer.emit] at hline
  | inlineCode value =>
    intro hline
    simp [Markdown.writeNode, Writer.pushCodeSpan, Writer.emit] at hline

end Settled

/-- What has been written before a further block: the text, with a blank line after it unless there
is one, or nothing. -/
def separated (p : Text) : Text :=
  if p.isEmpty || "\n\n".toList.isSuffixOf p then p else p ++ "\n".toList

theorem separated_spec {p : Text} (h : p = [] ∨ p.getLast? = some '\n') :
    separated p = [] ∨ "\n\n".toList <:+ separated p := by
  unfold separated
  split
  · rename_i hsep
    simpa using hsep
  · rename_i hsep
    have hne : p ≠ [] := fun hnil => by simp [hnil] at hsep
    obtain ⟨line, rfl⟩ := List.getLast?_eq_some_iff.mp (h.resolve_left hne)
    exact .inr ⟨line, by simp⟩

theorem getLast?_separated {p : Text} (h : p = [] ∨ p.getLast? = some '\n') :
    (separated p).getLast? ≠ some '\x60' := by
  rcases separated_spec h with hnil | ⟨line, hline⟩
  · simp [hnil]
  · simp [← hline]

/-- The writer before a further block. -/
theorem Settled.ensureBlankLine {w : Writer} (h : Settled w) :
    w.ensureBlankLine = ⟨separated w.ensureNewline.output, true, 0⟩ := by
  obtain ⟨hline, -⟩ := h.ensureNewline
  have hindent := (lineIndent_ensureNewline w).trans h.lineIndent
  simp only [Writer.ensureBlankLine, separated]
  generalize w.ensureNewline = v at hline hindent
  obtain ⟨out, line, indent⟩ := v
  subst hline hindent
  cases out with
  | nil => rfl
  | cons c out =>
    cases "\n\n".toList.isSuffixOf (c :: out) <;> simp [Writer.emit]

theorem Settled.afterBlankLine {w : Writer} (h : Settled w) : Settled w.ensureBlankLine := by
  rw [h.ensureBlankLine]
  refine ⟨rfl, fun _ => rfl, fun _ => ?_⟩
  rcases separated_spec h.ensureNewline.2 with hnil | ⟨line, hline⟩
  · exact .inl hnil
  · exact .inr (by simp [← hline])

/-! ## Documents -/

theorem writeBlocks_concat (xs : List Node) (y : Node) :
    writeBlocks .start (xs ++ [y]) = writeNode (writeBlocks .start xs).ensureBlankLine y := by
  cases xs with
  | nil => rfl
  | cons x xs => simp [writeBlocks]

theorem settled_writeBlocks (xs : List Node) : Settled (writeBlocks .start xs) := by
  induction xs using List.reverseRecOn with
  | nil => exact Settled.startOfText
  | append_singleton xs y ih =>
    rw [writeBlocks_concat]
    exact ih.afterBlankLine.writeNode y

/-- A document is empty or ends its last line. -/
theorem ended_toMarkdown (xs : List Node) :
    Document.toMarkdown ⟨xs⟩ = [] ∨ (Document.toMarkdown ⟨xs⟩).getLast? = some '\n' :=
  (settled_writeBlocks xs).ensureNewline.2

/-- A document with one more block. -/
theorem toMarkdown_concat (xs : List Node) (y : Node) :
    Document.toMarkdown ⟨xs ++ [y]⟩ =
      separated (Document.toMarkdown ⟨xs⟩) ++ Document.toMarkdown ⟨[y]⟩ := by
  have hsettled := settled_writeBlocks xs
  have hstart : Follows (separated (Document.toMarkdown ⟨xs⟩)) .start
      (writeBlocks .start xs).ensureBlankLine := by
    rw [hsettled.ensureBlankLine]
    exact ⟨by simp [Writer.start, Document.toMarkdown], rfl, rfl, fun _ => rfl⟩
  have hnode := (Follows.keeps (getLast?_separated (ended_toMarkdown xs))).writeNode hstart y
  rw [Document.toMarkdown, writeBlocks_concat]
  exact hnode.ensureNewline.output

/-- **Documents are written block by block.** A document is empty or ends its last line. One more
block is written as it is alone, at the start of the text or after a blank line. -/
theorem toMarkdown_block_by_block (xs : List Node) (y : Node) :
    let before := Document.toMarkdown ⟨xs⟩
    (before = [] ∨ before.getLast? = some '\n') ∧
      Document.toMarkdown ⟨xs ++ [y]⟩ = separated before ++ Document.toMarkdown ⟨[y]⟩ ∧
      (separated before = [] ∨ "\n\n".toList <:+ separated before) :=
  ⟨ended_toMarkdown xs, toMarkdown_concat xs y, separated_spec (ended_toMarkdown xs)⟩

end Markdown

end ApiDocs
