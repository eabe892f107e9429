import ApiDocs.Docstring.Item
import ApiDocs.Proofs.Text.Lines

/-!
# Descriptions of documented things

A description is put together line by line: a line break is kept where a code span is open, and
becomes a blank elsewhere. So the line breaks of a description say where its lines were, and
putting those lines together once more gives the description back.

* `Item.Joined`: descriptions that are put together so.
* `Item.joined_appendLines`: lines that are trimmed and not blank make such a description.
* `Item.appendLines_of_joined`: its lines, put together once more, give it back.
-/

namespace ApiDocs

namespace Text

/-- A line break in a text with an end that has none lies before that end. -/
theorem exists_of_append_eq_newline {s t before after : Text} (ht : '\n' ∉ t)
    (h : s ++ t = before ++ '\n' :: after) : ∃ rest, s = before ++ '\n' :: rest := by
  rcases List.append_eq_append_iff.mp h with ⟨w, hbefore, ht'⟩ | ⟨w, hs, hw⟩
  · exact absurd (ht' ▸ List.mem_append_right _ List.mem_cons_self) ht
  · cases w with
    | nil =>
      rw [List.nil_append] at hw
      exact absurd (hw ▸ List.mem_cons_self) ht
    | cons c w =>
      obtain ⟨rfl, -⟩ := List.cons.inj hw
      exact ⟨w, hs⟩

theorem trim_append_append {s t : Text} (hs : trim s = s) (ht : trim t = t) (hsne : s ≠ [])
    (htne : t ≠ []) (mid : Text) : trim (s ++ mid ++ t) = s ++ mid ++ t := by
  refine trim_eq_self_iff.mpr ⟨fun c hc => ?_, fun c hc => ?_⟩
  · refine (trim_eq_self_iff.mp hs).1 c ?_
    obtain ⟨d, s, rfl⟩ := List.exists_cons_of_ne_nil hsne
    simpa using hc
  · refine (trim_eq_self_iff.mp ht).2 c ?_
    rw [List.getLast?_append] at hc
    rw [List.getLast?_eq_some_getLast htne] at hc ⊢
    simpa using hc

end Text

namespace Item

/-- Descriptions that are put together from lines: each line is trimmed and not blank, and each
line break stands inside an open code span. -/
structure Joined (d : Text) : Prop where
  line : ∀ l ∈ d.splitOn '\n', Text.blank l = false ∧ Text.trim l = l
  span : ∀ before after, d = before ++ '\n' :: after → inCodeSpan before = true

theorem joined_of_line {l : Text} (hb : Text.blank l = false) (ht : Text.trim l = l)
    (hnl : '\n' ∉ l) : Joined l := by
  refine ⟨fun m hm => ?_, fun before after h => ?_⟩
  · rw [List.splitOn_eq_singleton hnl] at hm
    rw [List.mem_singleton.mp hm]
    exact ⟨hb, ht⟩
  · exact absurd (h ▸ List.mem_append_right _ List.mem_cons_self) hnl

theorem Joined.ne_nil {d : Text} (h : Joined d) : d ≠ [] := by
  rintro rfl
  simpa using (h.line [] (by simp [List.splitOn_eq_splitOnP])).1

/-- A description stays well put together when a line is joined to it. -/
theorem Joined.appendLine {d l : Text} (h : Joined d) (hb : Text.blank l = false)
    (ht : Text.trim l = l) (hnl : '\n' ∉ l) : Joined (appendLine d l) := by
  have hne := h.ne_nil
  cases hspan : inCodeSpan d with
  | true =>
    have happ : Item.appendLine d l = d ++ '\n' :: l := by simp [Item.appendLine, hne, hspan]
    rw [happ]
    refine ⟨fun m hm => ?_, fun before after heq => ?_⟩
    · rw [List.splitOn_append_cons_self, List.splitOn_eq_singleton hnl] at hm
      rcases List.mem_append.mp hm with hm | hm
      · exact h.line m hm
      · rw [List.mem_singleton.mp hm]
        exact ⟨hb, ht⟩
    · -- the line break is the new one, or it was there before
      rw [← List.singleton_append, ← List.append_assoc] at heq
      obtain ⟨rest, hrest⟩ := Text.exists_of_append_eq_newline hnl heq
      rcases List.eq_nil_or_concat rest with rfl | ⟨front, c, rfl⟩
      · rw [List.append_cancel_right hrest] at hspan
        exact hspan
      · rw [List.concat_eq_append, ← List.cons_append, ← List.append_assoc] at hrest
        exact h.span before front (List.append_inj_left' hrest rfl)
  | false =>
    have happ : Item.appendLine d l = d ++ ' ' :: l := by simp [Item.appendLine, hne, hspan]
    have hnl' : '\n' ∉ ' ' :: l := by simp [hnl]
    rw [happ]
    refine ⟨fun m hm => ?_, fun before after heq => ?_⟩
    · obtain ⟨before, last, hd, hdl⟩ := Text.exists_splitOn_append d hnl'
      rw [hdl] at hm
      rcases List.mem_append.mp hm with hm | hm
      · exact h.line m (hd ▸ List.mem_append_left _ hm)
      · obtain ⟨hlb, hlt⟩ := h.line last (hd ▸ List.mem_append_right _ List.mem_cons_self)
        rw [List.mem_singleton.mp hm]
        refine ⟨by simp [hlb], ?_⟩
        have := Text.trim_append_append hlt ht (Text.ne_nil_of_blank_eq_false hlb)
          (Text.ne_nil_of_blank_eq_false hb) [' ']
        simpa using this
    · obtain ⟨rest, hrest⟩ := Text.exists_of_append_eq_newline hnl' heq
      exact h.span before rest hrest

/-- Lines that are trimmed and not blank make a well put together description. -/
theorem joined_appendLines {d : Text} (hd : d = [] ∨ Joined d) {lines : List Text}
    (h : ∀ l ∈ lines, Text.blank l = false ∧ Text.trim l = l ∧ '\n' ∉ l) :
    appendLines d lines = [] ∨ Joined (appendLines d lines) := by
  induction lines generalizing d with
  | nil => exact hd
  | cons l lines ih =>
    obtain ⟨hb, ht, hnl⟩ := h l List.mem_cons_self
    refine ih (.inr ?_) fun m hm => h m (List.mem_cons_of_mem _ hm)
    rcases hd with rfl | hd
    · exact joined_of_line hb ht hnl
    · exact hd.appendLine hb ht hnl

/-- Lines of which all but the last end inside a code span are put together with line breaks. -/
theorem appendLines_eq_intercalate {first : Text} (hfirst : first ≠ []) (more : List Text)
    (h : ∀ before after, "\n".toList.intercalate (first :: more) = before ++ '\n' :: after →
      inCodeSpan before = true) :
    appendLines first more = "\n".toList.intercalate (first :: more) := by
  induction more generalizing first with
  | nil => simp [appendLines]
  | cons l more ih =>
    have hjoin : "\n".toList.intercalate (first :: l :: more) =
        "\n".toList.intercalate ((first ++ '\n' :: l) :: more) := by
      simp [Text.intercalate_cons]
    have hspan : inCodeSpan first = true := by
      refine h first ("\n".toList.intercalate (l :: more)) ?_
      rw [List.intercalate_cons_cons]
      simp
    have hstep : appendLine first l = first ++ '\n' :: l := by
      simp [appendLine, hfirst, hspan]
    rw [appendLines, List.foldl_cons, hstep, ← appendLines, ih (by simp) (hjoin ▸ h), hjoin]

/-- The lines of a description, put together once more, give it back. -/
theorem appendLines_of_joined {d first : Text} {more : List Text} (h : Joined d)
    (hd : d.splitOn '\n' = first :: more) : appendLines first more = d := by
  have hjoin : "\n".toList.intercalate (first :: more) = d := by
    rw [← hd]
    exact List.intercalate_splitOn '\n'
  have hfirst := (h.line first (hd ▸ List.mem_cons_self)).1
  rw [appendLines_eq_intercalate (Text.ne_nil_of_blank_eq_false hfirst), hjoin]
  rw [hjoin]
  exact h.span

end Item

end ApiDocs
