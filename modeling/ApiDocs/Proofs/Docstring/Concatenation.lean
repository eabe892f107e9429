import ApiDocs.Docstring.Parser
import ApiDocs.Proofs.Docstring.Blocks

/-!
# Texts below each other

A header or a field ends whatever stands above it. So when the first line of a text opens a
section or a field, the text may be read on its own and put below any other: what the two
document is what they document together.

* `Block.gather_append`: the blocks of lines below each other.
* `Line.ofText_append`: the lines of a text below another.
* `Docstring.parse_below`: what a text documents that is put together from two.
-/

namespace ApiDocs

namespace Block

/-! ## Blocks of lines below each other -/

/-- A line that opens a block ends the blocks before it, and takes nothing from them. -/
theorem gather_append (ls : List Line) {m : Line} (hm : m.opens = true) (ms : List Line) :
    gather (ls ++ m :: ms) = ((gather ls).1, (gather ls).2 ++ (gather (m :: ms)).2) := by
  induction ls with
  | nil =>
    obtain ⟨block, -, hg⟩ := gather_cons_of_opens hm ms
    rw [List.nil_append, hg]
    rfl
  | cons l ls ih =>
    cases hl : l.opens with
    | true =>
      obtain ⟨block, hblock, hg⟩ := gather_cons_of_opens hl ls
      obtain ⟨block', hblock', hg'⟩ := gather_cons_of_opens hl (ls ++ m :: ms)
      rw [ih] at hblock' hg'
      obtain rfl : block = block' := Option.some.inj (hblock.symm.trans hblock')
      rw [List.cons_append, hg', hg]
      rfl
    | false =>
      rw [List.cons_append, gather_cons_of_not_opens hl, gather_cons_of_not_opens hl, ih]

end Block

namespace Line

/-! ## Lines of texts below each other -/

theorem split_append (a b : Text) : split (a ++ '\n' :: b) = split a ++ split b := by
  simp [split, List.splitOn_append_cons_self]

theorem split_ne_nil (s : Text) : split s ≠ [] := by simp [split]

/-- Whether the first line of a text opens a section or a field. -/
def opensText (s : Text) : Bool := (ofText s).head?.any Line.opens

theorem exists_of_opensText {s : Text} (h : opensText s = true) :
    ∃ m ms, ofText s = m :: ms ∧ m.opens = true := by
  unfold opensText at h
  cases hs : ofText s with
  | nil => simp [hs] at h
  | cons m ms => exact ⟨m, ms, rfl, by simpa [hs] using h⟩

theorem ofText_append (a : Text) {b : Text} (h : opensText b = true) :
    ofText (a ++ '\n' :: b) = ofText a ++ ofText b := by
  obtain ⟨m, ms, hb, hm⟩ := exists_of_opensText h
  obtain ⟨first, rest, hsplit⟩ := List.exists_cons_of_ne_nil (split_ne_nil b)
  rw [ofText, hsplit] at hb
  rw [ofText, split_append, classify_append, ofText, ofText]
  -- the first line below opens something, so it does not underline the last line above
  intro y hy
  obtain rfl : first = y := by simpa [hsplit] using hy
  exact isUnderline_eq_false_of_opens hb hm

end Line

theorem Block.gather_ofText_append (a : Text) {b : Text} (h : Line.opensText b = true) :
    gather (Line.ofText (a ++ '\n' :: b)) =
      ((gather (Line.ofText a)).1,
        (gather (Line.ofText a)).2 ++ (gather (Line.ofText b)).2) := by
  obtain ⟨m, ms, hb, hm⟩ := Line.exists_of_opensText h
  rw [Line.ofText_append a h, hb, gather_append _ hm]

theorem Block.fst_gather_of_opensText {b : Text} (h : Line.opensText b = true) :
    (gather (Line.ofText b)).1 = [] := by
  obtain ⟨m, ms, hb, hm⟩ := Line.exists_of_opensText h
  obtain ⟨block, -, hg⟩ := gather_cons_of_opens hm ms
  rw [hb, hg]

namespace Docstring

/-! ## What texts below each other document -/

/-- **Reading part by part.** When the first line of a text opens a section or a field, the text
may stand below any other: the description is that of the upper text, documented things and
example code of both come one after the other, and the first return value that is given counts. -/
theorem parse_below (above : Text) {below : Text} (h : Line.opensText below = true) :
    (parse (above ++ '\n' :: below)).description = (parse above).description ∧
      (parse below).description = [] ∧
      (parse (above ++ '\n' :: below)).params = (parse above).params ++ (parse below).params ∧
      (parse (above ++ '\n' :: below)).returns = (parse above).returns.or (parse below).returns ∧
      (parse (above ++ '\n' :: below)).raises = (parse above).raises ++ (parse below).raises ∧
      (parse (above ++ '\n' :: below)).exampleBlocks =
        (parse above).exampleBlocks ++ (parse below).exampleBlocks ∧
      (parse (above ++ '\n' :: below)).examples =
        "\n\n".toList.intercalate
          (((parse above).exampleBlocks ++ (parse below).exampleBlocks).map (·.code)) := by
  have hg := Block.gather_ofText_append above h
  have hfst := Block.fst_gather_of_opensText h
  refine ⟨?_, ?_, ?_, ?_, ?_, ?_, ?_⟩
  · simp only [parse, hg]
  · simp only [parse, hfst]
    rfl
  · simp only [parse, hg, List.flatMap_append]
  · simp only [parse, hg, List.findSome?_append]
  · simp only [parse, hg, List.flatMap_append]
  · simp only [parse, hg, List.flatMap_append]
  · simp only [parse, hg, List.flatMap_append, joinExamples]

/-- A field below a section whose last item has an open code span. -/
theorem parse_below_open_span :
    Line.opensText ":return int: the sum".toList = true ∧
      (parse ("Adds.\nArgs:\n  a: `x".toList ++ '\n' :: ":return int: the sum".toList)).params =
        [⟨"a".toList, [], "`x".toList⟩] ∧
      (parse ("Adds.\nArgs:\n  a: `x".toList ++ '\n' :: ":return int: the sum".toList)).returns =
        some ⟨"int".toList, "the sum".toList⟩ := by
  have hopens : Line.opensText ":return int: the sum".toList = true := by decide
  have hbelow := parse_below "Adds.\nArgs:\n  a: `x".toList hopens
  refine ⟨hopens, ?_, ?_⟩
  · rw [hbelow.2.2.1]
    decide
  · rw [hbelow.2.2.2.1]
    decide

end Docstring

end ApiDocs
