import Mathlib.Order.Bounds.Basic
import ApiDocs.Proofs.Docstring.ExampleCode

/-!
# The common margin

Code is freed from the margin that its lines have in common: as many characters as the least
indented line has blanks in front of it, blank lines apart. No other character is taken from a line
that is not blank, and the lines keep their distance from each other.

* `Example.Core`: the lines from the first to the last that is not blank.
* `Example.indents`, `Example.isLeast_margin`: the margin is the least indentation.
* `Example.Freed`: what is left of lines, and why.
* `Example.dedent_frees`: this is what is left of any lines.
-/

namespace ApiDocs

namespace Example

/-! ## Lines that are kept -/

/-- The lines from the first to the last that is not blank. -/
structure Core (ls kept : List Text) : Prop where
  around : ∃ above below, ls = above ++ kept ++ below ∧
    (∀ l ∈ above, Text.blank l = true) ∧ ∀ l ∈ below, Text.blank l = true
  first : ∃ l, kept.head? = some l ∧ Text.blank l = false
  last : ∃ l, kept.getLast? = some l ∧ Text.blank l = false

theorem core_strip {ls : List Text} (h : ∃ l ∈ ls, Text.blank l = false) :
    Core ls (strip Text.blank ls) := by
  have hne : strip Text.blank ls ≠ [] := by
    obtain ⟨l, hl, hb⟩ := h
    intro hnil
    have hblank := strip_eq_nil_iff.mp hnil l hl
    rw [hb] at hblank
    cases hblank
  obtain ⟨above, below, habove, hbelow, hls⟩ := exists_eq_strip (p := Text.blank) ls
  refine ⟨⟨above, below, hls, habove, hbelow⟩, ?_, ?_⟩
  · have hhead := List.head?_eq_some_head hne
    exact ⟨_, hhead, head_strip hhead⟩
  · have hlast := List.getLast?_eq_some_getLast hne
    exact ⟨_, hlast, getLast_strip hlast⟩

/-- A line that is not blank is kept. -/
theorem Core.mem {ls kept : List Text} (h : Core ls kept) {l : Text} (hl : l ∈ ls)
    (hb : Text.blank l = false) : l ∈ kept := by
  obtain ⟨above, below, rfl, habove, hbelow⟩ := h.around
  rcases List.mem_append.mp hl with hl | hl
  · rcases List.mem_append.mp hl with hl | hl
    · rw [habove l hl] at hb
      cases hb
    · exact hl
  · rw [hbelow l hl] at hb
    cases hb

theorem Core.subset {ls kept : List Text} (h : Core ls kept) {l : Text} (hl : l ∈ kept) :
    l ∈ ls := by
  obtain ⟨above, below, rfl, -, -⟩ := h.around
  exact List.mem_append_left below (List.mem_append_right above hl)

/-! ## The margin -/

/-- How far the lines that are not blank are indented. -/
def indents (ls : List Text) : Set Nat := {n | ∃ l ∈ ls, Text.blank l = false ∧ Text.indent l = n}

theorem isLeast_margin {ls kept : List Text} (h : Core ls kept) :
    IsLeast (indents ls) (margin kept) := by
  constructor
  · obtain ⟨l, hl, hb⟩ := h.first
    obtain ⟨m, hm, hmb, hindent⟩ := exists_margin (List.mem_of_head? hl) hb
    exact ⟨m, h.subset hm, hmb, hindent⟩
  · rintro n ⟨l, hl, hb, rfl⟩
    exact margin_le (h.mem hl hb) hb

/-- What is left of a line: nothing of a blank one. -/
def freed (m : Nat) (l : Text) : Text := if Text.blank l then [] else l.drop m

/-- What is left of lines that are freed from their common margin: the lines that are kept, without
`m` characters each, which are all blank. -/
structure Freed (ls kept : List Text) (m : Nat) (code : Text) : Prop where
  core : Core ls kept
  least : IsLeast (indents ls) m
  lines : code.splitOn '\n' = kept.map (freed m)
  white : ∀ l ∈ kept, Text.blank l = false → (l.take m).length = m ∧ Text.blank (l.take m) = true
  distance : ∀ k ∈ kept, ∀ l ∈ kept, Text.blank k = false → Text.blank l = false →
    (Text.indent (freed m k) : ℤ) - Text.indent (freed m l) = Text.indent k - Text.indent l
  flush : ∃ l ∈ code.splitOn '\n', Text.blank l = false ∧ Text.indent l = 0

theorem dedent_eq_nil_iff {ls : List Text} : dedent ls = [] ↔ ∀ l ∈ ls, Text.blank l = true := by
  rw [dedent_eq]
  constructor
  · intro hnil
    rw [← strip_eq_nil_iff]
    by_contra hne
    -- the first line that is left is not blank, so the text is not empty
    obtain ⟨first, more, hlines⟩ : ∃ first more, dedentedLines ls = first :: more := by
      apply List.exists_cons_of_ne_nil
      simpa [dedentedLines] using hne
    have hfirst := (dedented_dedentedLines ls).head first (by rw [hlines]; rfl)
    rw [hlines, Text.intercalate_cons, List.append_eq_nil_iff] at hnil
    exact Text.ne_nil_of_blank_eq_false hfirst hnil.1
  · intro hblank
    rw [dedentedLines, strip_eq_nil_iff.mpr hblank]
    rfl

theorem freed_dedent {ls : List Text} (h : ∀ l ∈ ls, '\n' ∉ l)
    (hne : ∃ l ∈ ls, Text.blank l = false) :
    Freed ls (strip Text.blank ls) (margin (strip Text.blank ls)) (dedent ls) := by
  have hcore := core_strip hne
  have hindent : ∀ l ∈ strip Text.blank ls, Text.blank l = false →
      margin (strip Text.blank ls) ≤ Text.indent l := fun l hl hb => margin_le hl hb
  have hsplit : (dedent ls).splitOn '\n' = dedentedLines ls := by
    apply splitOn_dedent h
    rw [ne_eq, dedent_eq_nil_iff]
    intro hblank
    obtain ⟨l, hl, hb⟩ := hne
    rw [hblank l hl] at hb
    cases hb
  refine ⟨hcore, isLeast_margin hcore, hsplit, ?_, ?_, ?_⟩
  · intro l hl hb
    have hle := hindent l hl hb
    have hlength := Text.indent_le_length l
    refine ⟨?_, Text.blank_take hle⟩
    rw [List.length_take]
    omega
  · intro k hk l hl hkb hlb
    have hkm := hindent k hk hkb
    have hlm := hindent l hl hlb
    rw [freed, freed, hkb, hlb, if_neg (by simp), if_neg (by simp), Text.indent_drop hkm,
      Text.indent_drop hlm]
    omega
  · rw [hsplit]
    apply (dedented_dedentedLines ls).flush
    obtain ⟨l, hl, -⟩ := hcore.first
    intro hnil
    rw [dedentedLines, List.map_eq_nil_iff] at hnil
    rw [hnil] at hl
    cases hl

/-- Code that has been freed from its margin has none. -/
theorem dedent_splitOn_dedent {ls : List Text} (h : ∀ l ∈ ls, '\n' ∉ l) :
    dedent ((dedent ls).splitOn '\n') = dedent ls := by
  by_cases hnil : dedent ls = []
  · rw [hnil]
    rfl
  · rw [splitOn_dedent h hnil, dedent_of_dedented (dedented_dedentedLines ls), dedent_eq]

/-- **Code is freed from exactly its common margin.** Nothing is left of lines if and only if all
are blank. Otherwise the lines from the first to the last that is not blank are left, blank ones
empty and all others without as many characters as the least indented one of them has blanks in
front. To do this once more changes nothing. -/
theorem dedent_frees {ls : List Text} (h : ∀ l ∈ ls, '\n' ∉ l) :
    (dedent ls = [] ↔ ∀ l ∈ ls, Text.blank l = true) ∧
      ((∃ l ∈ ls, Text.blank l = false) → ∃ kept m, Freed ls kept m (dedent ls)) ∧
        dedent ((dedent ls).splitOn '\n') = dedent ls :=
  ⟨dedent_eq_nil_iff, fun hne => ⟨_, _, freed_dedent h hne⟩, dedent_splitOn_dedent h⟩

/-- Blanks of any kind count alike, and blank lines tell nothing of the margin. -/
theorem dedent_frees_tabs :
    let ls := [" ".toList, "\u2003\ta:".toList, " ".toList, "\t\u3000\tb".toList, [], [' ']]
    let code := "a:\n\n\tb".toList
    (∀ l ∈ ls, '\n' ∉ l) ∧ (∃ l ∈ ls, Text.blank l = false) ∧ dedent ls = code ∧
      (∃ kept m, Freed ls kept m code) ∧ dedent (code.splitOn '\n') = code := by
  intro ls code
  have hlines : ∀ l ∈ ls, '\n' ∉ l := by decide
  have hne : ∃ l ∈ ls, Text.blank l = false := by decide
  have hcode : dedent ls = code := by decide
  obtain ⟨-, hfreed, hagain⟩ := dedent_frees hlines
  rw [hcode] at hfreed hagain
  exact ⟨hlines, hne, hcode, hfreed hne, hagain⟩

end Example

end ApiDocs
