import ApiDocs.Page.Assembler
import ApiDocs.Proofs.Markdown.Chunks

/-!
# The chunks of a member

All that the documentation of a member is put together from is a chunk: headings, signatures and
titled lists lose the line breaks at their ends but keep what marks them, descriptions are
trimmed, and anchors are closed.

* `Assembler.isChunk_block`: blocks that start with something visible are chunks.
* `Assembler.isChunk_sectionChunks`: what a docstring says.
* `Assembler.isChunk_documentMember`: all chunks of a member.
* `Assembler.isChunk_memberText`: the documentation of a member is a chunk itself.
-/

namespace ApiDocs

namespace Assembler

open Markdown

/-! ## Blocks -/

/-- A block is a chunk if its first element writes something other than line breaks. -/
theorem isChunk_block {n : Node} {c : Char} (hc : c ∈ (writeNode .start n).output)
    (hne : c ≠ '\n') (rest : List Node) : IsChunk (block (n :: rest)) :=
  isChunk_dropEndWhile ((prefix_toMarkdown n rest).subset hc) hne

theorem isChunk_headingBlock (depth : UInt8) (title : Text) :
    IsChunk (headingBlock depth title) := by
  refine isChunk_block (c := ' ') ?_ (by decide) []
  rw [Node.headingAt, writeNode]
  refine ((prefix_writeNodes _ _).trans (prefix_emit _ _ _)).subset ?_
  simp [Writer.emit]

theorem isChunk_codeBlock (lang : Option Text) (value : Text) :
    IsChunk (block [.code lang value]) := by
  refine isChunk_block (c := '\x60') ?_ (by decide) []
  have hfence : '\x60' ∈ backticks (fenceLength value) := by
    rw [backticks, List.mem_replicate]
    exact ⟨by simp only [fenceLength]; omega, rfl⟩
  rw [writeNode]
  simp [Writer.emit, fencedBlock, hfence]

theorem isChunk_of_mem_titledBlock {title : Text} {body : List Node} :
    ∀ s ∈ titledBlock title body, IsChunk s := by
  intro s hs
  unfold titledBlock at hs
  split at hs
  · simp at hs
  · rw [List.mem_singleton.mp hs]
    refine isChunk_block (c := '*') ?_ (by decide) body
    have hstrong : (Writer.start.ensureNewline.push "**".toList).output <+:
        (writeNode Writer.start.ensureNewline (.strong [.text title])).output := by
      rw [writeNode]
      exact (prefix_writeNodes _ _).trans (prefix_push _ _)
    have hparagraph : (writeNode Writer.start.ensureNewline (.strong [.text title])).output <+:
        (writeNode .start (.paragraph [.strong [.text title]])).output := by
      conv_rhs => rw [writeNode, writeNodes]
      exact (prefix_writeNodes _ _).trans (prefix_emit _ _ _)
    exact (hstrong.trans hparagraph).subset (by decide)

theorem isChunk_anchor (m : Member) : IsChunk (anchor m) := by
  have hclosed : IsChunk "\"></a>".toList := ⟨by decide, by decide⟩
  exact hclosed.append_left _

/-! ## Docstrings -/

/-- The description of a docstring is trimmed, whatever strategy reads it. -/
theorem trim_description_read (a : Assembler) (doc : Option Text) :
    Text.trim (a.read doc).description = (a.read doc).description := by
  unfold read
  cases doc with
  | none => rfl
  | some raw => exact Text.trim_trim _

theorem isChunk_sectionChunks (a : Assembler) {d : Docstring}
    (h : Text.trim d.description = d.description) : ∀ s ∈ a.sectionChunks d, IsChunk s := by
  intro s hs
  simp only [sectionChunks, List.mem_append] at hs
  rcases hs with (((hs | hs) | hs) | hs) | hs
  · split at hs
    · simp at hs
    · rename_i hne
      rw [List.mem_singleton.mp hs]
      exact isChunk_of_trimmed h (by simpa using hne)
  all_goals exact isChunk_of_mem_titledBlock s hs

/-! ## Members -/

theorem isChunk_callableChunks (a : Assembler) (depth : UInt8) (name : Text) (m : Member) :
    ∀ s ∈ a.callableChunks depth name m, IsChunk s := by
  refine List.forall_mem_cons.mpr ⟨isChunk_headingBlock depth name,
    List.forall_mem_cons.mpr ⟨isChunk_codeBlock _ _, ?_⟩⟩
  exact isChunk_sectionChunks a (a.trim_description_read m.doc)

theorem isChunk_ownTypeChunks (a : Assembler) (depth : UInt8) (m : Member) :
    ∀ s ∈ a.ownTypeChunks depth m, IsChunk s := by
  refine List.forall_mem_cons.mpr ⟨isChunk_headingBlock depth _, ?_⟩
  exact isChunk_sectionChunks a (a.trim_description_read m.doc)

mutual

theorem isChunk_typeChunks (a : Assembler) (depth : UInt8) :
    ∀ m : Member, ∀ s ∈ a.typeChunks depth m, IsChunk s
  | ⟨_, _, _, _, _, _, _, members⟩ => by
    intro s hs
    rw [typeChunks] at hs
    rcases List.mem_append.mp hs with hs | hs
    · exact isChunk_ownTypeChunks a depth _ s hs
    · exact isChunk_memberChunks a (depth + 1) members s hs

theorem isChunk_memberChunks (a : Assembler) (depth : UInt8) :
    ∀ ms : List Member, ∀ s ∈ a.memberChunks depth ms, IsChunk s
  | [] => by
    intro s hs
    simp [memberChunks] at hs
  | m :: rest => by
    intro s hs
    rw [memberChunks] at hs
    rcases List.mem_append.mp hs with hs | hs
    · split at hs
      · simp at hs
      · split at hs
        · exact isChunk_typeChunks a depth m s hs
        · exact isChunk_callableChunks a depth _ m s hs
        · exact isChunk_callableChunks a depth _ m s hs
    · exact isChunk_memberChunks a depth rest s hs

end

/-- **The documentation of a member is made of chunks**, and there is one at least. -/
theorem isChunk_documentMember (a : Assembler) (m : Member) :
    a.documentMember m ≠ [] ∧ ∀ s ∈ a.documentMember m, IsChunk s := by
  unfold documentMember
  split
  · rw [documentType, if_neg (by simp)]
    refine ⟨by simp, List.forall_mem_cons.mpr ⟨isChunk_anchor m, ?_⟩⟩
    exact isChunk_typeChunks a typeDepth m
  all_goals exact ⟨by simp [documentCallable, callableChunks], isChunk_callableChunks a _ _ m⟩

theorem isChunk_memberText (a : Assembler) (m : Member) :
    IsChunk ("\n\n".toList.intercalate (a.documentMember m)) :=
  isChunk_intercalate _ (a.isChunk_documentMember m).1 (a.isChunk_documentMember m).2

end Assembler

end ApiDocs
