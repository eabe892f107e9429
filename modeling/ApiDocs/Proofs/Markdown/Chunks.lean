import Mathlib.Data.List.DropRight
import ApiDocs.Proofs.Markdown.SideBySide
import ApiDocs.Proofs.Text.Lines

/-!
# Chunks of Markdown

A chunk is a piece of Markdown that is not empty and does not end its last line. The writer never
takes back what it has written, and chunks that are written as they stand come out with exactly
what stands between them.

* `Markdown.IsChunk`: pieces of Markdown that leave their last line open.
* `Markdown.prefix_writeNode`: the writer only adds to what it has written.
* `Markdown.isChunk_dropEndWhile`: what is left of written Markdown without its last line breaks.
* `Markdown.toMarkdown_intersperse`: chunks with a line between any two.
-/

namespace ApiDocs

namespace Markdown

/-- A piece of Markdown that is not empty and does not end its last line. -/
structure IsChunk (s : Text) : Prop where
  ne_nil : s ≠ []
  unended : s.getLast? ≠ some '\n'

theorem IsChunk.append_left {t : Text} (h : IsChunk t) (s : Text) : IsChunk (s ++ t) := by
  refine ⟨by simp [h.ne_nil], ?_⟩
  rw [List.getLast?_append_of_ne_nil _ h.ne_nil]
  exact h.unended

/-- A trimmed text is a chunk unless it is empty. -/
theorem isChunk_of_trimmed {s : Text} (h : Text.trim s = s) (hne : s ≠ []) : IsChunk s := by
  refine ⟨hne, fun hlast => ?_⟩
  have := (Text.trim_eq_self_iff.mp h).2 _ hlast
  simp at this

theorem isChunk_intercalate (sep : Text) {chunks : List Text} (hne : chunks ≠ [])
    (h : ∀ s ∈ chunks, IsChunk s) : IsChunk (sep.intercalate chunks) := by
  induction chunks with
  | nil => exact absurd rfl hne
  | cons first more ih =>
    cases more with
    | nil => simpa using h first List.mem_cons_self
    | cons next more =>
      rw [List.intercalate_cons_cons]
      exact (ih (by simp) fun s hs => h s (List.mem_cons_of_mem _ hs)).append_left _

theorem isChunk_dropEndWhile {s : Text} {c : Char} (hc : c ∈ s) (hne : c ≠ '\n') :
    IsChunk (Text.dropEndWhile (· == '\n') s) := by
  have hleft : Text.dropEndWhile (· == '\n') s ≠ [] := by
    intro hnil
    have := List.rdropWhile_eq_nil_iff.mp hnil c hc
    exact hne (by simpa using this)
  refine ⟨hleft, fun hlast => ?_⟩
  have := List.rdropWhile_last_not (· == '\n') s hleft
  rw [List.getLast?_eq_some_getLast hleft] at hlast
  exact this (beq_iff_eq.mpr (Option.some.inj hlast))

theorem dropEndWhile_chunk {s : Text} (h : IsChunk s) :
    Text.dropEndWhile (· == '\n') (s ++ "\n".toList) = s := by
  have hlast : s.getLast h.ne_nil ≠ '\n' := fun hbreak =>
    h.unended (by rw [List.getLast?_eq_some_getLast h.ne_nil, hbreak])
  have hsame : s.rdropWhile (· == '\n') = s :=
    List.rdropWhile_eq_self_iff.mpr fun _ => by simpa using hlast
  exact (rdropWhile_append_right (by simp) s).trans hsame

/-- The end of a text does not depend on what stands before it, unless that has the same end. -/
theorem getLast?_append_eq_some_iff {p : Text} {c : Char} (hp : p.getLast? ≠ some c) (s : Text) :
    (p ++ s).getLast? = some c ↔ s.getLast? = some c := by
  by_cases hs : s = []
  · simp [hs, hp]
  · rw [List.getLast?_append_of_ne_nil _ hs]

/-! ## The writer only adds -/

theorem prefix_emit (w : Writer) (s : Text) (b : Bool) : w.output <+: (w.emit s b).output :=
  ⟨s, rfl⟩

theorem prefix_push (w : Writer) (s : Text) : w.output <+: (w.push s).output := by
  unfold Writer.push
  split
  · exact List.prefix_rfl
  · exact prefix_emit w _ _

theorem prefix_ensureNewline (w : Writer) : w.output <+: w.ensureNewline.output := by
  unfold Writer.ensureNewline
  split
  · exact prefix_emit w _ _
  · exact List.prefix_rfl

theorem prefix_ensureBlankLine (w : Writer) : w.output <+: w.ensureBlankLine.output := by
  have hline := prefix_ensureNewline w
  simp only [Writer.ensureBlankLine]
  split
  · exact hline.trans (prefix_emit _ _ _)
  · exact hline

/-- What has been written stays at the start, whatever is written after it. -/
theorem prefix_keeps (p : Text) : Keeps fun w _ => p <+: w.output where
  emit h _ b := h.trans (prefix_emit _ _ b)
  emitInLine h _ := h.trans (prefix_emit _ _ _)
  push h s := h.trans (prefix_push _ s)
  pushCodeSpan h _ := h.trans (prefix_emit _ _ _)
  ensureNewline h := h.trans (prefix_ensureNewline _)
  startLine h := h
  withIndent h _ := h

theorem prefix_writeNode (w : Writer) (n : Node) : w.output <+: (writeNode w n).output :=
  (prefix_keeps w.output).writeNode (v := w) List.prefix_rfl n

theorem prefix_writeNodes (w : Writer) (ns : List Node) :
    w.output <+: (writeNodes w ns).output :=
  (prefix_keeps w.output).writeNodes (v := w) List.prefix_rfl ns

/-- What is written first stays at the start of a document. -/
theorem prefix_toMarkdown (n : Node) (rest : List Node) :
    (writeNode .start n).output <+: Document.toMarkdown ⟨n :: rest⟩ := by
  have hrest : ∀ (ns : List Node) (w : Writer),
      w.output <+: (ns.foldl (fun w n => writeNode w.ensureBlankLine n) w).output := by
    intro ns
    induction ns with
    | nil => exact fun w => List.prefix_rfl
    | cons n ns ih =>
      intro w
      exact (prefix_ensureBlankLine w).trans ((prefix_writeNode _ n).trans (ih _))
  exact (hrest rest (writeNode .start n)).trans (prefix_ensureNewline _)

/-! ## Chunks with a line between any two -/

@[simp] theorem replaceChar_self (c : Char) (s : Text) : Text.replaceChar c [c] s = s := by
  induction s with
  | nil => rfl
  | cons d s ih =>
    rw [Text.replaceChar] at ih
    rw [Text.replaceChar, List.flatMap_cons, ih]
    by_cases hd : d = c <;> simp [hd]

/-- A chunk is written as it stands, and leaves its line open. -/
theorem writeNode_html {s : Text} (h : IsChunk s) (out : Text) (b : Bool) :
    writeNode ⟨out, b, 0⟩ (.html s) = ⟨out ++ s, false, 0⟩ := by
  have hlast : (s.getLast? == some '\n') = false := by simpa using h.unended
  rw [writeNode, Writer.push, List.isEmpty_eq_false_iff.mpr h.ne_nil, if_neg (by simp), hlast]
  simp [Writer.emit]

theorem isSuffixOf_newlines {out : Text} (h : out.getLast? ≠ some '\n') :
    "\n\n".toList.isSuffixOf (out ++ "\n".toList) = false := by
  rw [← Bool.not_eq_true, List.isSuffixOf_iff_suffix]
  rintro ⟨t, ht⟩
  have hout : t ++ ['\n'] = out := by
    have hsame : (t ++ ['\n']) ++ ['\n'] = out ++ ['\n'] := by simpa using ht
    exact List.append_cancel_right hsame
  rw [← hout] at h
  simp at h

/-- A line below a chunk, with blank lines around it. -/
theorem ensureBlankLine_thematicBreak {out : Text} (h : IsChunk out) :
    (writeNode (Writer.ensureBlankLine ⟨out, false, 0⟩) .thematicBreak).ensureBlankLine =
      ⟨out ++ "\n\n---\n\n".toList, true, 0⟩ := by
  have habove := isSuffixOf_newlines h.unended
  have hbelow : "\n\n".toList.isSuffixOf ((out ++ "\n\n---".toList) ++ "\n".toList) = false :=
    isSuffixOf_newlines (by simp)
  have hfirst : Writer.ensureBlankLine ⟨out, false, 0⟩ = ⟨out ++ "\n\n".toList, true, 0⟩ := by
    simp only [Writer.ensureBlankLine, Writer.ensureNewline, Writer.emit, Bool.not_false,
      List.isEmpty_eq_false_iff.mpr h.ne_nil, Bool.and_self, if_true, habove]
    simp
  rw [hfirst, writeNode]
  simp only [Writer.ensureBlankLine, Writer.ensureNewline, Writer.emit, Bool.not_true,
    Bool.false_and, Bool.false_eq_true, if_false]
  have hsame : out ++ "\n\n".toList ++ "---\n".toList = out ++ "\n\n---".toList ++ "\n".toList := by
    simp
  rw [hsame, hbelow]
  simp

/-- Chunks below another, each below a line. -/
theorem foldl_writeNode_html (out : Text) (hout : IsChunk out) {more : List Text}
    (h : ∀ s ∈ more, IsChunk s) :
    (more.flatMap fun s => [Node.thematicBreak, .html s]).foldl
        (fun w n => writeNode w.ensureBlankLine n) ⟨out, false, 0⟩ =
      ⟨out ++ more.flatMap ("\n\n---\n\n".toList ++ ·), false, 0⟩ := by
  induction more generalizing out with
  | nil => simp
  | cons s more ih =>
    have hs := h s List.mem_cons_self
    rw [List.flatMap_cons, List.foldl_append, List.foldl_cons, List.foldl_cons, List.foldl_nil,
      ensureBlankLine_thematicBreak hout, writeNode_html hs,
      ih _ (hs.append_left _) fun t ht => h t (List.mem_cons_of_mem _ ht)]
    simp

theorem intersperse_html (first : Text) (more : List Text) :
    ((first :: more).map Node.html).intersperse .thematicBreak =
      .html first :: more.flatMap fun s => [Node.thematicBreak, .html s] := by
  induction more generalizing first with
  | nil => rfl
  | cons next more ih =>
    rw [List.map_cons, List.map_cons, List.intersperse_cons_cons, ← List.map_cons, ih next]
    rfl

/-- **Chunks with a line between any two** are written with exactly that between them. -/
theorem toMarkdown_intersperse {chunks : List Text} (hne : chunks ≠ [])
    (h : ∀ s ∈ chunks, IsChunk s) :
    Document.toMarkdown ⟨(chunks.map Node.html).intersperse .thematicBreak⟩ =
      "\n\n---\n\n".toList.intercalate chunks ++ "\n".toList := by
  obtain ⟨first, more, rfl⟩ := List.exists_cons_of_ne_nil hne
  have hfirst := h first List.mem_cons_self
  have hall := isChunk_intercalate "\n\n---\n\n".toList hne h
  rw [Text.intercalate_cons] at hall ⊢
  rw [Document.toMarkdown, intersperse_html, writeBlocks, Writer.start, writeNode_html hfirst,
    List.nil_append, foldl_writeNode_html first hfirst
      fun s hs => h s (List.mem_cons_of_mem _ hs)]
  simp only [Writer.ensureNewline, Writer.emit, Bool.not_false,
    List.isEmpty_eq_false_iff.mpr hall.ne_nil, Bool.and_self, if_true]

end Markdown

end ApiDocs
