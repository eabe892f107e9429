import ApiDocs.Docstring.Example
import ApiDocs.Proofs.Docstring.Classification

/-!
# Example code without its margin

Code that has been freed from its margin starts and ends with a line that is not blank, has
a line without indentation, and its blank lines are empty. Freeing such code from its margin once
more changes nothing.

* `Example.Dedented`: lines without blank ends and without a common margin.
* `Example.dedented_dedentedLines`: the lines that are left of any lines are so.
* `Example.dedent_of_dedented`: nothing is taken from lines that are so.
* `Example.dedent_append`: blank lines around code do not count.
* `Example.splitAtDirectives_spec`: the parts between directives are lines in a row.
* `Example.exists_of_mem_blocks`: where the code of a block comes from.
-/

namespace ApiDocs

namespace Text

/-! ## Indentation -/

theorem indent_cons_blank {c : Char} (h : isBlank c = true) (s : Text) :
    indent (c :: s) = indent s + 1 := by
  simp [indent, h]

theorem indent_cons_of_not_blank {c : Char} (h : isBlank c = false) (s : Text) :
    indent (c :: s) = 0 := by
  simp [indent, h]

theorem indent_blank_append {w : Text} (hw : blank w = true) (s : Text) :
    indent (w ++ s) = w.length + indent s := by
  rw [indent, List.takeWhile_append_of_pos (blank_iff.mp hw), List.length_append, indent]

theorem indent_le_length (s : Text) : indent s ≤ s.length :=
  (List.takeWhile_prefix isBlank).length_le

theorem blank_take {s : Text} {n : Nat} (h : n ≤ indent s) : blank (s.take n) = true := by
  rw [blank_iff]
  intro c hc
  have hwithin : s.take n <+: s.takeWhile isBlank := by
    apply List.prefix_of_prefix_length_le (List.take_prefix n s) (List.takeWhile_prefix isBlank)
    rw [List.length_take]
    unfold indent at h
    omega
  exact List.mem_takeWhile_imp (hwithin.subset hc)

theorem indent_drop {s : Text} {n : Nat} (h : n ≤ indent s) :
    indent (s.drop n) = indent s - n := by
  have hwhole := indent_blank_append (blank_take h) (s.drop n)
  have hlength := indent_le_length s
  rw [List.take_append_drop, List.length_take] at hwhole
  omega

theorem trim_drop {s : Text} {n : Nat} (h : n ≤ indent s) : trim (s.drop n) = trim s := by
  have hwhole := trim_blank_append (blank_take h) (s.drop n)
  rw [List.take_append_drop] at hwhole
  exact hwhole.symm

theorem blank_drop {s : Text} {n : Nat} (h : n ≤ indent s) : blank (s.drop n) = blank s := by
  rw [← blank_trim, trim_drop h, blank_trim]

/-- What follows the first character that is not blank does not count for the indentation. -/
theorem indent_append {s : Text} (h : blank s = false) (t : Text) :
    indent (s ++ t) = indent s := by
  induction s with
  | nil => simp at h
  | cons c s ih =>
    cases hc : isBlank c with
    | false => rw [List.cons_append, indent_cons_of_not_blank hc, indent_cons_of_not_blank hc]
    | true =>
      have hs : blank s = false := by simpa [blank, hc] using h
      rw [List.cons_append, indent_cons_blank hc, indent_cons_blank hc, ih hs]

end Text

namespace Line

/-! ## Lines without a carriage return -/

@[simp] theorem dropReturn_append_return (s : Text) : dropReturn (s ++ ['\r']) = s := by
  simp [dropReturn]

theorem dropReturn_eq_self_iff {s : Text} : dropReturn s = s ↔ s.getLast? ≠ some '\r' := by
  unfold dropReturn
  split
  · rename_i h
    have hlast : s.getLast? = some '\r' := by simpa using h
    have hlen : s.dropLast.length < s.length := by
      cases s with
      | nil => simp at hlast
      | cons c s => simp
    simp only [hlast, ne_eq, not_true_eq_false, iff_false]
    intro heq
    rw [heq] at hlen
    omega
  · rename_i h
    simpa using h

theorem dropReturn_cases (s : Text) :
    dropReturn s = s ∨ ∃ t, s = t ++ ['\r'] ∧ dropReturn s = t := by
  by_cases h : s.getLast? = some '\r'
  · obtain ⟨t, rfl⟩ := List.getLast?_eq_some_iff.mp h
    exact .inr ⟨t, rfl, dropReturn_append_return t⟩
  · exact .inl (dropReturn_eq_self_iff.mpr h)

@[simp] theorem trim_dropReturn (s : Text) : Text.trim (dropReturn s) = Text.trim s := by
  rcases dropReturn_cases s with h | ⟨t, rfl, h⟩
  · rw [h]
  · rw [h, Text.trim_append_singleton_blank (by decide)]

@[simp] theorem blank_dropReturn (s : Text) : Text.blank (dropReturn s) = Text.blank s := by
  rw [← Text.blank_trim, trim_dropReturn, Text.blank_trim]

theorem indent_dropReturn {s : Text} (h : Text.blank s = false) :
    Text.indent (dropReturn s) = Text.indent s := by
  rcases dropReturn_cases s with hs | ⟨t, rfl, hs⟩
  · rw [hs]
  · rw [hs, Text.indent_append]
    rw [← blank_dropReturn, hs] at h
    exact h

theorem mem_of_mem_dropReturn {s : Text} {c : Char} (h : c ∈ dropReturn s) : c ∈ s := by
  rcases dropReturn_cases s with hs | ⟨t, rfl, hs⟩
  · rwa [hs] at h
  · rw [hs] at h
    exact List.mem_append_left _ h

end Line

namespace Example

/-! ## Margins -/

theorem margin_le {ls : List Text} {l : Text} (hl : l ∈ ls) (hb : Text.blank l = false) :
    margin ls ≤ Text.indent l := by
  have hmem : Text.indent l ∈ (ls.filter (!Text.blank ·)).map Text.indent :=
    List.mem_map_of_mem (List.mem_filter.mpr ⟨hl, by simp [hb]⟩)
  obtain ⟨m, hm⟩ := Option.isSome_iff_exists.mp (List.isSome_min?_of_mem hmem)
  rw [margin, hm, Option.getD_some]
  exact (List.min?_eq_some_iff.mp hm).2 _ hmem

/-- The margin is the indentation of one of the lines, unless all are blank. -/
theorem exists_margin {ls : List Text} {l : Text} (hl : l ∈ ls) (hb : Text.blank l = false) :
    ∃ m ∈ ls, Text.blank m = false ∧ Text.indent m = margin ls := by
  have hmem : Text.indent l ∈ (ls.filter (!Text.blank ·)).map Text.indent :=
    List.mem_map_of_mem (List.mem_filter.mpr ⟨hl, by simp [hb]⟩)
  obtain ⟨n, hn⟩ := Option.isSome_iff_exists.mp (List.isSome_min?_of_mem hmem)
  obtain ⟨m, hm, hmn⟩ := List.mem_map.mp (List.min?_eq_some_iff.mp hn).1
  obtain ⟨hm, hmb⟩ := List.mem_filter.mp hm
  exact ⟨m, hm, by simpa using hmb, by rw [margin, hn, Option.getD_some, hmn]⟩

/-- Lines without blank ends and without a common margin, of which the blank ones are empty. -/
structure Dedented (ls : List Text) : Prop where
  eq_nil_of_blank : ∀ l ∈ ls, Text.blank l = true → l = []
  head : ∀ l, ls.head? = some l → Text.blank l = false
  last : ∀ l, ls.getLast? = some l → Text.blank l = false
  flush : ls ≠ [] → ∃ l ∈ ls, Text.blank l = false ∧ Text.indent l = 0

/-- The lines that are left when blank ends and the common margin are taken away. -/
def dedentedLines (ls : List Text) : List Text :=
  (strip Text.blank ls).map fun l =>
    if Text.blank l then [] else l.drop (margin (strip Text.blank ls))

theorem dedent_eq (ls : List Text) : dedent ls = "\n".toList.intercalate (dedentedLines ls) := rfl

/-- Nothing is taken from lines that have no blank ends and no margin. -/
theorem dedent_of_dedented {ls : List Text} (h : Dedented ls) :
    dedent ls = "\n".toList.intercalate ls := by
  have hstrip : strip Text.blank ls = ls := strip_eq_self_iff.mpr ⟨h.head, h.last⟩
  have hmargin : margin ls = 0 := by
    by_cases hne : ls = []
    · rw [hne]
      rfl
    · obtain ⟨l, hl, hb, hindent⟩ := h.flush hne
      have := margin_le hl hb
      omega
  rw [dedent_eq, dedentedLines, hstrip, hmargin]
  congr 1
  conv_rhs => rw [← List.map_id ls]
  refine List.map_congr_left fun l hl => ?_
  by_cases hb : Text.blank l = true
  · simp [h.eq_nil_of_blank l hl hb]
  · simp [hb]

theorem map_trim_dedentedLines (ls : List Text) :
    (dedentedLines ls).map Text.trim = (strip Text.blank ls).map Text.trim := by
  rw [dedentedLines, List.map_map]
  refine List.map_congr_left fun l hl => ?_
  cases hb : Text.blank l with
  | true => simp [hb, Text.trim_eq_nil_iff.mpr hb]
  | false => simp [hb, Text.trim_drop (margin_le hl hb)]

theorem dedented_dedentedLines (ls : List Text) : Dedented (dedentedLines ls) := by
  have hblank : ∀ l ∈ strip Text.blank ls, Text.blank
      (if Text.blank l then [] else l.drop (margin (strip Text.blank ls))) = Text.blank l := by
    intro l hl
    cases hb : Text.blank l with
    | true => simp
    | false => simp [Text.blank_drop (margin_le hl hb), hb]
  refine ⟨?_, ?_, ?_, ?_⟩
  · intro m hm hmb
    obtain ⟨l, hl, rfl⟩ := List.mem_map.mp hm
    rw [hblank l hl] at hmb
    simp [hmb]
  · intro m hm
    rw [dedentedLines, List.head?_map, Option.map_eq_some_iff] at hm
    obtain ⟨l, hl, rfl⟩ := hm
    rw [hblank l (List.mem_of_head? hl)]
    exact head_strip hl
  · intro m hm
    rw [dedentedLines, List.getLast?_map, Option.map_eq_some_iff] at hm
    obtain ⟨l, hl, rfl⟩ := hm
    rw [hblank l (List.mem_of_getLast? hl)]
    exact getLast_strip hl
  · intro hne
    have hne' : strip Text.blank ls ≠ [] := by
      rintro hnil
      simp [dedentedLines, hnil] at hne
    obtain ⟨first, more, hfirst⟩ := List.exists_cons_of_ne_nil hne'
    have hfb : Text.blank first = false := head_strip (l := ls) (by rw [hfirst]; rfl)
    have hmem : first ∈ strip Text.blank ls := hfirst ▸ List.mem_cons_self
    obtain ⟨l, hl, hb, hindent⟩ := exists_margin hmem hfb
    refine ⟨l.drop (margin (strip Text.blank ls)), ?_, ?_, ?_⟩
    · exact List.mem_map.mpr ⟨l, hl, by simp [hb]⟩
    · rw [Text.blank_drop hindent.ge, hb]
    · rw [Text.indent_drop hindent.ge, hindent, Nat.sub_self]

theorem dedent_append {a b : List Text} (ha : ∀ l ∈ a, Text.blank l = true)
    (hb : ∀ l ∈ b, Text.blank l = true) (ls : List Text) : dedent (a ++ ls ++ b) = dedent ls := by
  rw [dedent_eq, dedent_eq, dedentedLines, dedentedLines, strip_append_right hb,
    strip_append_left ha]

theorem newline_not_mem_dedentedLines {ls : List Text} (h : ∀ l ∈ ls, '\n' ∉ l) :
    ∀ l ∈ dedentedLines ls, '\n' ∉ l := by
  intro m hm hnl
  obtain ⟨l, hl, rfl⟩ := List.mem_map.mp hm
  split at hnl
  · simp at hnl
  · exact h l ((strip_isInfix ls).subset hl) (List.mem_of_mem_drop hnl)

theorem splitOn_dedent {ls : List Text} (h : ∀ l ∈ ls, '\n' ∉ l) (hne : dedent ls ≠ []) :
    (dedent ls).splitOn '\n' = dedentedLines ls := by
  have hlines : dedentedLines ls ≠ [] := by
    intro hnil
    rw [dedent_eq, hnil] at hne
    exact hne rfl
  exact List.splitOn_intercalate _ (newline_not_mem_dedentedLines h) hlines

/-- Carriage returns are no part of what tells the margin. -/
theorem Dedented.map_dropReturn {ls : List Text} (h : Dedented ls) :
    Dedented (ls.map Line.dropReturn) := by
  refine ⟨?_, ?_, ?_, ?_⟩
  · intro m hm hmb
    obtain ⟨l, hl, rfl⟩ := List.mem_map.mp hm
    rw [h.eq_nil_of_blank l hl (by simpa using hmb)]
    rfl
  · intro m hm
    rw [List.head?_map, Option.map_eq_some_iff] at hm
    obtain ⟨l, hl, rfl⟩ := hm
    simpa using h.head l hl
  · intro m hm
    rw [List.getLast?_map, Option.map_eq_some_iff] at hm
    obtain ⟨l, hl, rfl⟩ := hm
    simpa using h.last l hl
  · intro hne
    obtain ⟨l, hl, hb, hindent⟩ := h.flush (by simpa using hne)
    exact ⟨Line.dropReturn l, List.mem_map_of_mem hl, by simpa using hb,
      by rw [Line.indent_dropReturn hb, hindent]⟩

/-! ## Directives -/

@[simp] theorem directive?_trim (s : Text) : directive? (Text.trim s) = directive? s := by
  simp [directive?]

/-- A directive names a trimmed language of one line, or none. -/
theorem language_of_directive? {s lang : Text} (hs : '\n' ∉ s)
    (h : directive? s = some (some lang)) : lang ≠ [] ∧ Text.trim lang = lang ∧ '\n' ∉ lang := by
  simp only [directive?, Option.map_eq_some_iff] at h
  obtain ⟨rest, hrest, hlang⟩ := h
  split at hlang
  · cases hlang
  · rename_i hne
    obtain rfl := Option.some.inj hlang
    refine ⟨by simpa using hne, Text.trim_trim rest, fun hnl => hs ?_⟩
    have hmem : '\n' ∈ Text.trim s := by
      rcases Option.or_eq_some_iff.mp hrest with hpre | ⟨-, hpre⟩
      · rw [← List.isPrefixOf?_eq_some_iff_append_eq.mp hpre]
        exact List.mem_append_right _ (Text.mem_of_mem_trim hnl)
      · rw [← List.isPrefixOf?_eq_some_iff_append_eq.mp hpre]
        exact List.mem_append_right _ (Text.mem_of_mem_trim hnl)
    exact Text.mem_of_mem_trim hmem

theorem splitAtDirectives_of_none {ls : List Text} (h : ∀ l ∈ ls, directive? l = none) :
    splitAtDirectives ls = (ls, []) := by
  induction ls with
  | nil => rfl
  | cons l ls ih =>
    simp [splitAtDirectives, ih fun m hm => h m (List.mem_cons_of_mem _ hm),
      h l List.mem_cons_self]

/-- The parts between directives are lines in a row, none of them a directive. -/
theorem splitAtDirectives_spec (ls : List Text) :
    ((splitAtDirectives ls).1 <+: ls ∧ ∀ l ∈ (splitAtDirectives ls).1, directive? l = none) ∧
      ∀ g ∈ (splitAtDirectives ls).2, g.2 <:+: ls ∧ (∀ l ∈ g.2, directive? l = none) ∧
        ∃ s ∈ ls, directive? s = some g.1 := by
  induction ls with
  | nil => simp [splitAtDirectives]
  | cons s ls ih =>
    obtain ⟨⟨hpre, hnone⟩, hgroups⟩ := ih
    have hstep : ∀ g ∈ (splitAtDirectives ls).2, g.2 <:+: s :: ls ∧
        (∀ l ∈ g.2, directive? l = none) ∧ ∃ t ∈ s :: ls, directive? t = some g.1 := by
      intro g hg
      obtain ⟨hrow, hg', t, ht, hdir⟩ := hgroups g hg
      exact ⟨hrow.trans (List.suffix_cons ..).isInfix, hg', t, List.mem_cons_of_mem _ ht, hdir⟩
    cases hd : directive? s with
    | none =>
      simp only [splitAtDirectives, hd]
      refine ⟨⟨List.cons_prefix_cons.mpr ⟨rfl, hpre⟩, fun l hl => ?_⟩, hstep⟩
      rcases List.mem_cons.mp hl with rfl | hl
      · exact hd
      · exact hnone l hl
    | some language =>
      simp only [splitAtDirectives, hd]
      refine ⟨⟨List.nil_prefix, by simp⟩, fun g hg => ?_⟩
      rcases List.mem_cons.mp hg with rfl | hg
      · exact ⟨hpre.isInfix.trans (List.suffix_cons ..).isInfix, hnone, s, List.mem_cons_self, hd⟩
      · exact hstep g hg

/-- Where the code of a block and its language come from. -/
theorem exists_of_mem_blocks {body : List Line} {b : ExampleBlock} (h : b ∈ blocks body) :
    b.code ≠ [] ∧ (∃ ls, ls <:+: body.map (·.text) ∧ (∀ l ∈ ls, directive? l = none) ∧
        b.code = dedent ls) ∧
      (b.language = none ∨ ∃ s ∈ body.map (·.text), directive? s = some b.language) := by
  obtain ⟨⟨hpre, hnone⟩, hgroups⟩ := splitAtDirectives_spec (body.map (·.text))
  obtain ⟨hmem, hne⟩ := List.mem_filter.mp h
  obtain ⟨⟨language, ls⟩, hg, rfl⟩ := List.mem_map.mp hmem
  refine ⟨by simpa using hne, ?_⟩
  rcases List.mem_cons.mp hg with heq | hg
  · cases heq
    exact ⟨⟨_, hpre.isInfix, hnone, rfl⟩, .inl rfl⟩
  · obtain ⟨hrow, hls, hlang⟩ := hgroups _ hg
    exact ⟨⟨_, hrow, hls, rfl⟩, .inr hlang⟩

end Example

end ApiDocs
