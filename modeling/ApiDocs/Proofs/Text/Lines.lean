import ApiDocs.Proofs.Text.Trim

/-!
# Lines of a text

A text is cut into lines at its line breaks, and joining the lines gives the text back. The
lemmas say what the lines of a text are that is put together from parts.

* `Text.not_mem_of_mem_splitOn`: no part contains the separator, no line a line break.
* `Text.splitOn_append_flatMap`: the lines of a text with further texts below it.
* `Text.exists_splitOn_append`: text without a separator, such as a line break, is added to the
  last part.
* `Text.map_trim_splitOn_trim`: trimming a text drops whole lines at its ends, and nothing else as
  far as the trims of the lines show.
-/

namespace ApiDocs

namespace Text

@[simp] theorem isBlank_newline : isBlank '\n' = true := by decide

@[simp] theorem isBlank_space : isBlank ' ' = true := by decide

/-! ## Lines and line breaks -/

theorem not_mem_of_mem_splitOn {sep : Char} {s l : Text} (h : l ∈ s.splitOn sep) : sep ∉ l := by
  induction s generalizing l with
  | nil =>
    obtain rfl : l = [] := by simpa [List.splitOn_eq_splitOnP] using h
    simp
  | cons c s ih =>
    rw [List.splitOn_cons_eq_if_modifyHead] at h
    split at h
    · rcases List.mem_cons.mp h with rfl | h
      · simp
      · exact ih h
    · rename_i hc
      obtain ⟨first, more, hs⟩ := List.exists_cons_of_ne_nil (List.splitOn_ne_nil sep s)
      rw [hs, List.modifyHead_cons] at h
      rcases List.mem_cons.mp h with rfl | h
      · intro hmem
        rcases List.mem_cons.mp hmem with rfl | hmem
        · simp at hc
        · exact ih (hs ▸ List.mem_cons_self) hmem
      · exact ih (hs ▸ List.mem_cons_of_mem _ h)

theorem newline_not_mem_of_mem_splitOn {s l : Text} (h : l ∈ s.splitOn '\n') : '\n' ∉ l :=
  not_mem_of_mem_splitOn h

/-- Lines joined by line breaks are the first one with each of the others below it. -/
theorem intercalate_cons (sep first : Text) (more : List Text) :
    sep.intercalate (first :: more) = first ++ more.flatMap (sep ++ ·) := by
  induction more generalizing first with
  | nil => simp
  | cons l more ih => simp [List.intercalate_cons_cons, ih, List.append_assoc]

theorem isInfix_of_mem_splitOn {s l : Text} (h : l ∈ s.splitOn '\n') : l <:+: s := by
  obtain ⟨first, more, hs⟩ := List.exists_cons_of_ne_nil (List.splitOn_ne_nil '\n' s)
  have hall : s = first ++ more.flatMap ("\n".toList ++ ·) := by
    rw [← intercalate_cons, ← hs]
    exact (List.intercalate_splitOn '\n').symm
  rw [hs] at h
  rcases List.mem_cons.mp h with rfl | h
  · exact ⟨[], more.flatMap ("\n".toList ++ ·), by rw [hall]; rfl⟩
  · obtain ⟨before, after, rfl⟩ := List.append_of_mem h
    exact ⟨first ++ before.flatMap ("\n".toList ++ ·) ++ "\n".toList,
      after.flatMap ("\n".toList ++ ·), by simp [hall]⟩

/-- Lines that are all ended are the lines joined, with the last one ended. -/
theorem flatMap_append_newline {lines : List Text} (hne : lines ≠ []) :
    (lines.flatMap fun l => l ++ "\n".toList) = "\n".toList.intercalate lines ++ "\n".toList := by
  induction lines with
  | nil => exact absurd rfl hne
  | cons first more ih =>
    cases more with
    | nil => simp
    | cons next more =>
      rw [List.flatMap_cons, ih (by simp), List.intercalate_cons_cons]
      simp

theorem splitOn_append_flatMap (s : Text) (below : List Text) :
    (s ++ below.flatMap ('\n' :: ·)).splitOn '\n' =
      s.splitOn '\n' ++ below.flatMap (·.splitOn '\n') := by
  induction below generalizing s with
  | nil => simp
  | cons t below ih =>
    rw [List.flatMap_cons, List.flatMap_cons, List.cons_append, List.splitOn_append_cons_self, ih]

/-- Text without a separator is added to the last part. -/
theorem exists_splitOn_append {sep : Char} (s : Text) {t : Text} (ht : sep ∉ t) :
    ∃ before last, s.splitOn sep = before ++ [last] ∧
      (s ++ t).splitOn sep = before ++ [last ++ t] := by
  induction s with
  | nil => exact ⟨[], [], rfl, by simpa using List.splitOn_eq_singleton ht⟩
  | cons c s ih =>
    obtain ⟨before, last, hs, hst⟩ := ih
    rw [List.cons_append, List.splitOn_cons_eq_if_modifyHead, List.splitOn_cons_eq_if_modifyHead,
      hs, hst]
    split
    · exact ⟨[] :: before, last, rfl, rfl⟩
    · cases before with
      | nil => exact ⟨[], c :: last, rfl, rfl⟩
      | cons first before => exact ⟨(c :: first) :: before, last, rfl, rfl⟩

/-! ## Lines of a trimmed text -/

theorem map_trim_splitOn_trimStart (s : Text) :
    ((trimStart s).splitOn '\n').map trim <:+ (s.splitOn '\n').map trim := by
  induction s with
  | nil => exact List.suffix_rfl
  | cons c s ih =>
    cases hc : isBlank c with
    | false =>
      rw [trimStart_cons_of_not_blank hc]
    | true =>
      rw [trimStart_cons_blank hc]
      refine ih.trans ?_
      rw [List.splitOn_cons_eq_if_modifyHead]
      split
      · exact List.suffix_cons _ _
      · obtain ⟨first, more, hs⟩ := List.exists_cons_of_ne_nil (List.splitOn_ne_nil '\n' s)
        rw [hs, List.modifyHead_cons, List.map_cons, List.map_cons, trim_cons_blank hc]

theorem map_trim_splitOn_trimEnd (s : Text) :
    ((trimEnd s).splitOn '\n').map trim <+: (s.splitOn '\n').map trim := by
  induction s using List.reverseRecOn with
  | nil => exact List.prefix_rfl
  | append_singleton s c ih =>
    cases hc : isBlank c with
    | false =>
      rw [trimEnd_append_of_not_blank hc]
    | true =>
      rw [trimEnd_append_blank (by simp [blank, hc])]
      refine ih.trans ?_
      by_cases hnl : c = '\n'
      · subst hnl
        rw [List.splitOn_append_cons_self, List.map_append]
        exact List.prefix_append _ _
      · have hbreak : '\n' ∉ [c] := by simp [Ne.symm hnl]
        obtain ⟨before, last, hs, hsc⟩ := exists_splitOn_append s hbreak
        rw [hs, hsc, List.map_append, List.map_append, List.map_singleton, List.map_singleton,
          trim_append_singleton_blank hc]

/-- Trimming a text drops whole lines at its ends; the trims of the other lines stay. -/
theorem map_trim_splitOn_trim (s : Text) :
    ((trim s).splitOn '\n').map trim <:+: (s.splitOn '\n').map trim :=
  (map_trim_splitOn_trimEnd _).isInfix.trans (map_trim_splitOn_trimStart s).isInfix

end Text

end ApiDocs
