import ApiDocs.Page.Assembler
import ApiDocs.Proofs.Markdown.InlineElements

/-!
# Lists of documented things

A documented thing is one item of a list, however many lines its description has: the first line
starts with the bullet, each other one is indented, and no text can leave the item. This holds of
any names and descriptions; only a type may have no line break, because it is written as a code
span.

* `DocTag.areInline_inline`: a documented thing is made of inline elements.
* `Assembler.toMarkdown_tagList`: the text of a list.
* `Assembler.tagList_stays_in_items`: nothing but bullets at the start of a line.
-/

namespace ApiDocs

open Markdown

theorem DocTag.areInline_inline {t : DocTag} (h : '\n' ∉ t.typeName) :
    Node.areInline t.inline = true := by
  have hhead : Node.areInline t.headNodes = true := by
    cases t with
    | param p =>
      rw [headNodes]
      split <;> simp_all [Node.areInline, Node.isInline, typeName]
    | returns p | error p | generic p =>
      rw [headNodes]
      split <;> simp_all [Node.areInline, Node.isInline, typeName]
  simp only [DocTag.inline]
  split
  · exact hhead
  · rw [Node.areInline_append, Node.areInline_append, hhead]
    split <;> rfl

namespace Assembler

/-- The documented things of which there is something to show. -/
def shown (tags : List DocTag) : List DocTag := tags.filter (!·.inline.isEmpty)

theorem tagList_eq (tags : List DocTag) :
    tagList tags = if (shown tags).isEmpty then []
      else [.list (((shown tags).map DocTag.inline).map fun ns => .listItem [.paragraph ns])] := by
  have hitems : (tags.map DocTag.inline).filter (!·.isEmpty) = (shown tags).map DocTag.inline := by
    rw [List.filter_map]
    rfl
  simp only [tagList, hitems, List.isEmpty_map]

/-- The text of a list of documented things. -/
theorem toMarkdown_tagList {tags : List DocTag} (h : ∀ t ∈ tags, '\n' ∉ t.typeName) :
    Document.toMarkdown ⟨tagList tags⟩ =
      (shown tags).flatMap fun t => itemText (Markdown.inline t.inline) ++ "\n".toList := by
  rw [tagList_eq]
  split
  · rename_i hnone
    rw [List.isEmpty_iff.mp hnone]
    rfl
  · rw [toMarkdown_items, List.flatMap_map]
    intro ns hns
    obtain ⟨t, ht, rfl⟩ := List.mem_map.mp hns
    exact DocTag.areInline_inline (h t (List.mem_of_mem_filter ht))

/-- **Text stays in its item.** A list of documented things is one item for each that has something
to show: its inline elements, with two blanks after each line break. So exactly one line for each
starts with a bullet, and all others start with two blanks. -/
theorem tagList_stays_in_items {tags : List DocTag} (h : ∀ t ∈ tags, '\n' ∉ t.typeName) :
    let written := Document.toMarkdown ⟨tagList tags⟩
    (written = (shown tags).flatMap fun t =>
      "- ".toList ++ Text.replaceChar '\n' "\n  ".toList (Markdown.inline t.inline) ++
        "\n".toList) ∧
    ∃ lines, written.splitOn '\n' = lines ++ [[]] ∧
      lines.countP ("- ".toList.isPrefixOf ·) = (shown tags).length ∧
      ∀ l ∈ lines, "- ".toList <+: l ∨ "  ".toList <+: l := by
  intro written
  let texts := (shown tags).map (Markdown.inline ·.inline)
  have hwritten : written = texts.flatMap fun s => itemText s ++ "\n".toList := by
    rw [List.flatMap_map]
    exact toMarkdown_tagList h
  refine ⟨toMarkdown_tagList h, texts.flatMap itemLines, ?_, ?_, ?_⟩
  · rw [hwritten, splitOn_items]
  · rw [List.countP_flatMap]
    have hone : ∀ s : Text, (itemLines s).countP ("- ".toList.isPrefixOf ·) = 1 :=
      fun s => (itemLines_spec s).1
    simp only [Function.comp_def, hone]
    rw [List.map_const', List.sum_replicate_nat, List.length_map, Nat.mul_one]
  · intro l hl
    obtain ⟨s, -, hl⟩ := List.mem_flatMap.mp hl
    exact (itemLines_spec s).2 l hl

/-- A description with a bullet of its own on a further line, and a thing without anything to show. -/
theorem tagList_stays_in_items_bullet :
    let tags : List DocTag :=
      [.param ⟨"n".toList, "int".toList, "the number\n- not an item\n".toList⟩, .error ⟨[], []⟩,
        .generic ⟨[], "* a\n\nb".toList⟩]
    (∀ t ∈ tags, '\n' ∉ t.typeName) ∧
      Document.toMarkdown ⟨tagList tags⟩ =
        "- **n** (`int`): the number\n  - not an item\n  \n- * a\n  \n  b\n".toList := by
  intro tags
  have htypes : ∀ t ∈ tags, '\n' ∉ t.typeName := by decide
  refine ⟨htypes, (tagList_stays_in_items htypes).1.trans ?_⟩
  decide

end Assembler

end ApiDocs
