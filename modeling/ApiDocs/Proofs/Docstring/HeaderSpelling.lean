import ApiDocs.Proofs.Docstring.Neighbours
import ApiDocs.Proofs.Docstring.Concatenation

/-!
# Spellings of a header

A section has several words, in any letter case, and a word is made a header by a colon or by
an underline. One spelling takes one line and the other takes two, and a line may depend on the line
next to it; yet a header of either spelling ends what stands above it, and the lines below it are
read as if nothing stood above them. So it does not matter how a header is spelled.

* `Line.SpellsHeader`: the spellings of the header of a section.
* `Line.ofText_of_spellsHeader`: the lines of a text that starts with a header.
* `Block.gather_of_spellsHeader`: the blocks of a text with a header in it.
* `Docstring.parse_spelled_header`: what is read does not depend on the spelling.
-/

namespace ApiDocs

namespace Section

theorem ofWord?_of_mem_vocabulary {k : Section} {word : Text}
    (h : Text.lowerAscii word ∈ k.vocabulary) : ofWord? word = some k := by
  -- the first section with the word is the only one
  have hfind : ∀ w ∈ k.vocabulary, all.find? (fun j => j.vocabulary.contains w) = some k := by
    cases k <;> decide
  exact hfind _ h

/-- A section word has no blanks, so it is its own trim. -/
theorem trim_of_ofWord? {word : Text} {k : Section} (h : ofWord? word = some k) :
    Text.trim word = word := by
  apply Text.trim_of_forall_not_blank
  intro c hc
  by_contra hblank
  have hletter : c.toLower.isLower = false :=
    Text.forall_isBlank (P := fun c => c.toLower.isLower = false) (by decide)
      (by simpa using hblank)
  simp [(letters_of_ofWord? h).2 c hc] at hletter

end Section

namespace Line

/-! ## Spellings -/

/-- A text on a line of its own, with blanks around it. -/
def Padded (s line : Text) : Prop :=
  ∃ a b, Text.blank a = true ∧ Text.blank b = true ∧ '\n' ∉ a ∧ '\n' ∉ b ∧ line = a ++ s ++ b

/-- The spellings of the header of a section: a word of the section in any letter case, with
a colon after it and perhaps one before it, or with an underline on the line below. -/
inductive SpellsHeader (k : Section) : Text → Prop
  | colon {lead word line : Text} (leading : lead = [] ∨ lead = ":".toList)
    (vocabulary : Text.lowerAscii word ∈ k.vocabulary)
    (padded : Padded (lead ++ word ++ ":".toList) line) : SpellsHeader k line
  | underlined {word line rule below : Text} (vocabulary : Text.lowerAscii word ∈ k.vocabulary)
    (marks : ∃ n, 3 ≤ n ∧ (rule = List.replicate n '-' ∨ rule = List.replicate n '='))
    (padded : Padded word line) (paddedRule : Padded rule below) :
    SpellsHeader k (line ++ '\n' :: below)

theorem Padded.trim {s line : Text} (h : Padded s line) : Text.trim line = Text.trim s := by
  obtain ⟨a, b, ha, hb, -, -, rfl⟩ := h
  rw [Text.trim_append_blank hb, Text.trim_blank_append ha]

theorem Padded.split_eq {s line : Text} (h : Padded s line) (hs : '\n' ∉ s) :
    split line = [dropReturn line] := by
  obtain ⟨a, b, -, -, ha, hb, rfl⟩ := h
  have hline : '\n' ∉ a ++ s ++ b := by simp [ha, hb, hs]
  rw [split, List.splitOn_eq_singleton hline, List.map_singleton]

theorem newline_not_mem_of_ofWord? {word : Text} {k : Section}
    (h : Section.ofWord? word = some k) : '\n' ∉ word := by
  intro hmem
  exact absurd ((Section.letters_of_ofWord? h).2 _ hmem) (by decide)

/-- A section word with a colon behind it is a header, also with another colon before it. -/
theorem colonHeader?_of_ofWord? {lead word : Text} {k : Section}
    (hlead : lead = [] ∨ lead = ":".toList) (h : Section.ofWord? word = some k) :
    colonHeader? (lead ++ word ++ ":".toList) = some k := by
  have hword := Section.trim_of_ofWord? h
  obtain ⟨c, more, rfl⟩ := List.exists_cons_of_ne_nil (Section.letters_of_ofWord? h).1
  have hletter : c.toLower.isLower = true := (Section.letters_of_ofWord? h).2 c List.mem_cons_self
  have hcolon : c ≠ ':' := by
    rintro rfl
    exact absurd hletter (by decide)
  have hlast : ∀ s : Text, (s ++ ":".toList).getLast? = some ':' := by simp
  have htrim : Text.trim (lead ++ c :: more ++ ":".toList) = lead ++ c :: more ++ ":".toList := by
    apply Text.trim_eq_self_iff.mpr
    constructor
    · intro d hd
      rcases hlead with rfl | rfl
      · obtain rfl : c = d := by simpa using hd
        exact (Text.trim_eq_self_iff.mp hword).1 c rfl
      · obtain rfl : ':' = d := by simpa using hd
        decide
    · intro d hd
      obtain rfl : ':' = d := Option.some.inj ((hlast _).symm.trans hd)
      decide
  have hsuffix : ":".toList.isSuffixOf? (lead ++ c :: more ++ ":".toList) =
      some (lead ++ c :: more) := List.isSuffixOf?_eq_some_iff_append_eq.mpr rfl
  have hinner : (":".toList.isPrefixOf? (lead ++ c :: more)).getD (lead ++ c :: more) =
      c :: more := by
    rcases hlead with rfl | rfl
    · simp [List.isPrefixOf?, hcolon.symm]
    · simp [List.isPrefixOf?]
  simp only [colonHeader?, htrim, hsuffix, Option.bind_eq_bind, Option.bind_some, hinner, hword, h]

/-- A text that starts with a header: the line or the lines of the header, and below them the lines
of the rest as they are without it. -/
theorem ofText_of_spellsHeader {k : Section} {h : Text} (hs : SpellsHeader k h) (below : Text) :
    ∃ s marks, (∀ m ∈ marks, m.kind = .underline) ∧
      ofText (h ++ '\n' :: below) = ⟨s, .header k⟩ :: (marks ++ ofText below) := by
  cases hs with
  | @colon lead word line leading vocabulary padded =>
    have hword := Section.ofWord?_of_mem_vocabulary vocabulary
    have hline : '\n' ∉ lead ++ word ++ ":".toList := by
      rcases leading with rfl | rfl <;> simp [newline_not_mem_of_ofWord? hword]
    have hkind : ownKind? (dropReturn h) = some (.header k) := by
      rw [← ownKind?_trim, trim_dropReturn, padded.trim, ownKind?_trim]
      have hsolid : Text.blank (lead ++ word ++ ":".toList) = false :=
        Text.blank_eq_false_of_mem (c := ':') (by simp) (by decide)
      simp only [ownKind?, hsolid, colonHeader?_of_ofWord? leading hword]
      rfl
    refine ⟨dropReturn h, [], by simp, ?_⟩
    rw [ofText, split_append, padded.split_eq hline, List.singleton_append,
      classify_cons_of_ownKind? hkind]
    rfl
  | @underlined word line rule mark vocabulary marks padded paddedRule =>
    -- the word is a header by the line below it, and that line has no say about the next one
    have hword := Section.ofWord?_of_mem_vocabulary vocabulary
    have hs : Section.ofWord? (Text.trim (dropReturn line)) = some k := by
      rw [trim_dropReturn, padded.trim, Section.trim_of_ofWord? hword, hword]
    have hrule : '\n' ∉ rule ∧ Text.trim rule = rule := by
      obtain ⟨n, -, rfl | rfl⟩ := marks
      · exact ⟨by simp, Text.trim_of_forall_not_blank (by simp [Text.isBlank])⟩
      · exact ⟨by simp, Text.trim_of_forall_not_blank (by simp [Text.isBlank])⟩
    have hmark : isUnderline (dropReturn mark) = true := by
      rw [isUnderline_iff, IsRule, trim_dropReturn, paddedRule.trim, hrule.2]
      exact marks
    refine ⟨dropReturn line, [⟨dropReturn mark, .underline⟩], by simp, ?_⟩
    rw [List.append_assoc, List.cons_append, ofText, split_append, split_append,
      padded.split_eq (newline_not_mem_of_ofWord? hword), paddedRule.split_eq hrule.1,
      List.singleton_append, List.singleton_append, classify_cons_underlined hs hmark]
    rfl

end Line

namespace Block

/-! ## Blocks below a header -/

theorem gather_append_of_underlines {marks : List Line} (h : ∀ m ∈ marks, m.kind = .underline)
    (ls : List Line) : gather (marks ++ ls) = (marks ++ (gather ls).1, (gather ls).2) := by
  induction marks with
  | nil => rfl
  | cons m marks ih =>
    obtain ⟨hm, hmarks⟩ := List.forall_mem_cons.mp h
    have hquiet : m.opens = false := by simp [Line.opens, hm]
    rw [List.cons_append, gather_cons_of_not_opens hquiet, ih hmarks, List.cons_append]

/-- A header ends what stands above it, and it has the lines below it up to the next block as its
body. Nothing else in a text depends on the header or on its spelling. -/
theorem gather_of_spellsHeader (above below : Text) {k : Section} {h : Text}
    (hs : Line.SpellsHeader k h) :
    gather (Line.ofText (above ++ '\n' :: h ++ '\n' :: below)) =
      ((gather (Line.ofText above)).1,
        (gather (Line.ofText above)).2 ++
          body k (ownedLines (gather (Line.ofText below)).1) ::
            (gather (Line.ofText below)).2) := by
  obtain ⟨s, marks, hmarks, hlines⟩ := Line.ofText_of_spellsHeader hs below
  have hopens : Line.opensText (h ++ '\n' :: below) = true := by
    rw [Line.opensText, hlines]
    rfl
  have howned : ownedLines (marks ++ (gather (Line.ofText below)).1) =
      ownedLines (gather (Line.ofText below)).1 := by
    rw [ownedLines, List.filter_append, List.filter_eq_nil_iff.mpr (by simpa using hmarks)]
    rfl
  have hbelow : gather (Line.ofText (h ++ '\n' :: below)) =
      ([], body k (ownedLines (gather (Line.ofText below)).1) ::
        (gather (Line.ofText below)).2) := by
    rw [hlines, gather, gather_append_of_underlines hmarks]
    simp only [opened?, howned]
  rw [List.append_assoc, List.cons_append, gather_ofText_append above hopens, hbelow]

end Block

namespace Docstring

/-- **Spellings of a header are interchangeable.** Whatever stands above and below, it makes no
difference how the header of a section is spelled. In any spelling the header ends what stands
above, and the lines below it up to the next block are the body of its section. -/
theorem parse_spelled_header (above below : Text) {k : Section} {h h' : Text}
    (hs : Line.SpellsHeader k h) (hs' : Line.SpellsHeader k h') :
    (parse (above ++ '\n' :: h ++ '\n' :: below)).sameContent
        (parse (above ++ '\n' :: h' ++ '\n' :: below)) = true ∧
      Block.gather (Line.ofText (above ++ '\n' :: h ++ '\n' :: below)) =
        ((Block.gather (Line.ofText above)).1,
          (Block.gather (Line.ofText above)).2 ++
            .body k (Block.ownedLines (Block.gather (Line.ofText below)).1) ::
              (Block.gather (Line.ofText below)).2) := by
  have hg := Block.gather_of_spellsHeader above below hs
  have hg' := Block.gather_of_spellsHeader above below hs'
  refine ⟨?_, hg⟩
  simp only [sameContent, parse, hg, hg', decide_true]

/-- A section word above the header and a row of dashes below it belong to their neighbours in
neither spelling. -/
theorem parse_spelled_header_between :
    Line.SpellsHeader .parameters "\t:pArAmS: ".toList ∧
      Line.SpellsHeader .parameters " Arguments\r\n====\t".toList ∧
      (parse "Returns\n Arguments\r\n====\t\n---\nn (int): one".toList).sameContent
        (parse "Returns\n\t:pArAmS: \n---\nn (int): one".toList) = true ∧
      (parse "Returns\n\t:pArAmS: \n---\nn (int): one".toList).params =
        [⟨"n".toList, "int".toList, "one".toList⟩] := by
  have hparams : Text.lowerAscii "pArAmS".toList ∈ Section.parameters.vocabulary := by decide
  have harguments : Text.lowerAscii "Arguments".toList ∈ Section.parameters.vocabulary := by decide
  have hmarks : ∃ n, 3 ≤ n ∧
      ("====".toList = List.replicate n '-' ∨ "====".toList = List.replicate n '=') :=
    ⟨4, by decide, .inr rfl⟩
  have hcolon : Line.SpellsHeader .parameters "\t:pArAmS: ".toList :=
    .colon (.inr rfl) hparams
      ⟨"\t".toList, " ".toList, by decide, by decide, by decide, by decide, by decide⟩
  have hrule : Line.SpellsHeader .parameters (" Arguments\r".toList ++ '\n' :: "====\t".toList) :=
    .underlined harguments hmarks
      ⟨" ".toList, "\r".toList, by decide, by decide, by decide, by decide, by decide⟩
      ⟨[], "\t".toList, by decide, by decide, by decide, by decide, by decide⟩
  have hsame := (parse_spelled_header "Returns".toList "---\nn (int): one".toList hrule hcolon).1
  exact ⟨hcolon, hrule, hsame, by decide⟩

end Docstring

end ApiDocs
