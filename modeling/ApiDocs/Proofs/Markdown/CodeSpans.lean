import ApiDocs.Proofs.Markdown.FencedCode

/-!
# Reading code spans

A code span ends at the next run of as many backticks as have opened it. Its delimiters are longer
than any run in the value, blanks keep the backticks of the value apart from them, and a blank keeps
them apart from the span before. So a row of code spans is read back value by value, wherever the
values have backticks.

* `CodeSpan.read?`, `CodeSpan.readAll`: the rule by which code spans are read.
* `CodeSpan.cutAtRun?_append`: the delimiter that closes a span is found.
* `CodeSpan.read?_codeSpan`: one span, with any text behind it.
* `Markdown.inline_inlineCode`: what is written for a list of values.
* `CodeSpan.readAll_inline`: code spans are read back.
-/

namespace ApiDocs

open Markdown

namespace CodeSpan

/-! ## Reading -/

/-- The text before and after the first maximal run of exactly `n` backticks, when `run` backticks
stand just before the text. -/
def cutAtRun? (n : Nat) (run : Nat) : Text → Option (Text × Text)
  | [] => if run = n then some ([], []) else none
  | c :: s =>
    if c = '\x60' then cutAtRun? n (run + 1) s
    else if run = n then some ([], c :: s)
    else (cutAtRun? n 0 s).map fun (before, after) => (backticks run ++ c :: before, after)

/-- The content without one space on each side, if there are both. -/
def strip (content : Text) : Text :=
  if content.head? = some ' ' ∧ content.getLast? = some ' ' then content.tail.dropLast else content

/-- Reads the code span at the start of a text: its value, and what stands behind it. -/
def read? (s : Text) : Option (Text × Text) :=
  let opening := s.takeWhile (· == '\x60')
  if opening.isEmpty then none
  else
    (cutAtRun? opening.length 0 (s.dropWhile (· == '\x60'))).map fun (content, behind) =>
      (strip content, behind)

/-- A text without the one space that sets it apart from what stands before it. -/
def dropSpace : Text → Text
  | ' ' :: s => s
  | s => s

theorem length_dropSpace_le (s : Text) : (dropSpace s).length ≤ s.length := by
  unfold dropSpace
  split <;> simp

theorem length_of_cutAtRun? {n run : Nat} {s before after : Text}
    (h : cutAtRun? n run s = some (before, after)) : after.length ≤ s.length := by
  induction s generalizing run before with
  | nil =>
    rw [cutAtRun?] at h
    split at h
    · cases h
      exact Nat.le_refl _
    · cases h
  | cons c s ih =>
    rw [cutAtRun?] at h
    split at h
    · exact Nat.le_succ_of_le (ih h)
    · split at h
      · cases h
        exact Nat.le_refl _
      · obtain ⟨⟨a, b⟩, hcut, hab⟩ := Option.map_eq_some_iff.mp h
        cases hab
        exact Nat.le_succ_of_le (ih hcut)

theorem length_of_read? {s value behind : Text} (h : read? s = some (value, behind)) :
    behind.length < s.length := by
  simp only [read?] at h
  split at h
  · cases h
  · rename_i hopening
    obtain ⟨⟨content, after⟩, hcut, hread⟩ := Option.map_eq_some_iff.mp h
    obtain rfl : after = behind := congrArg Prod.snd hread
    have hafter := length_of_cutAtRun? hcut
    have hall := congrArg List.length
      (List.takeWhile_append_dropWhile (p := (· == '\x60')) (l := s))
    have hsome : 0 < (s.takeWhile (· == '\x60')).length := by
      rw [List.length_pos_iff]
      simpa using hopening
    rw [List.length_append] at hall
    omega

/-- Reads code spans, each set apart from the one before by a space, as long as there is one: their
values, and the text that is left over. -/
def readAll (s : Text) : List Text × Text :=
  match _ : read? s with
  | none => ([], s)
  | some (value, behind) =>
    let more := readAll (dropSpace behind)
    (value :: more.1, more.2)
termination_by s.length
decreasing_by
  exact Nat.lt_of_le_of_lt (length_dropSpace_le behind) (length_of_read? ‹_›)

/-! ## One code span -/

theorem cutAtRun?_backticks {n k run : Nat} (hk : run + k = n) {behind : Text}
    (hbehind : behind.head? ≠ some '\x60') :
    cutAtRun? n run (backticks k ++ behind) = some ([], behind) := by
  induction k generalizing run with
  | zero =>
    have hrun : run = n := hk
    cases behind with
    | nil => simp [backticks, cutAtRun?, hrun]
    | cons c behind =>
      have hc : c ≠ '\x60' := by simpa using hbehind
      simp [backticks, cutAtRun?, hrun, hc]
  | succ k ih =>
    have hmore : run + 1 + k = n := by omega
    rw [backticks, List.replicate_succ, List.cons_append, cutAtRun?, if_pos rfl]
    exact ih hmore

/-- The delimiter that closes a span is found, if the content has no run of its length and does not
end with a backtick. -/
theorem cutAtRun?_append {n run : Nat} {content behind : Text}
    (hruns : ¬ backticks n <:+: backticks run ++ content) (hrun : content = [] → run = 0)
    (hlast : content.getLast? ≠ some '\x60') (hbehind : behind.head? ≠ some '\x60') :
    cutAtRun? n run (content ++ (backticks n ++ behind)) =
      some (backticks run ++ content, behind) := by
  -- The scan has passed `run` backticks of the content, which are not written out yet.
  induction content generalizing run with
  | nil =>
    obtain rfl := hrun rfl
    exact cutAtRun?_backticks (Nat.zero_add n) hbehind
  | cons c content ih =>
    have hlater : content.getLast? ≠ some '\x60' := fun h => hlast (by simp [List.getLast?_cons, h])
    rw [List.cons_append, cutAtRun?]
    by_cases hc : c = '\x60'
    · subst hc
      have hne : content ≠ [] := by
        rintro rfl
        simp at hlast
      rw [backticks_append_cons] at hruns ⊢
      rw [if_pos rfl]
      exact ih hruns (fun h => absurd h hne) hlater
    · have hshort : run ≠ n := by
        rintro rfl
        exact hruns (List.prefix_append _ _).isInfix
      have hrest : ¬ backticks n <:+: backticks 0 ++ content := fun h =>
        hruns (h.trans ⟨backticks run ++ [c], [], by simp [backticks]⟩)
      rw [if_neg hc, if_neg hshort, ih hrest (fun _ => rfl) hlater]
      rfl

/-- What stands between the delimiters of a code span. -/
def content (value : Text) : Text :=
  if value.contains '\x60' then " ".toList ++ value ++ " ".toList else value

theorem codeSpan_eq (value : Text) :
    codeSpan value =
      backticks (longestBacktickRun value + 1) ++ content value ++
        backticks (longestBacktickRun value + 1) := by
  unfold codeSpan content
  split <;> simp

theorem content_ne_nil {value : Text} (hvalue : value ≠ []) : content value ≠ [] := by
  unfold content
  split <;> simp [hvalue]

/-- The delimiters are longer than any run of backticks between them. -/
theorem not_backticks_infix_content (value : Text) :
    ¬ backticks (longestBacktickRun value + 1) <:+: content value := by
  have hvalue : ¬ backticks (longestBacktickRun value + 1) <:+: value := fun h =>
    Nat.not_succ_le_self _ (le_longestBacktickRun_iff.mpr h)
  have hnil : ¬ backticks (longestBacktickRun value + 1) <:+: [] := fun h => by
    simp [backticks] at h
  unfold content
  split
  · intro h
    have hspace : ' ' ≠ '\x60' := by decide
    have hparts : " ".toList ++ value ++ " ".toList = [] ++ ' ' :: (value ++ ' ' :: []) := rfl
    rw [hparts] at h
    rcases backticks_infix_append_cons hspace h with h | h
    · exact hnil h
    · exact (backticks_infix_append_cons hspace h).elim hvalue hnil
  · exact hvalue

/-- The content touches neither delimiter with a backtick. -/
theorem content_ends (value : Text) :
    (content value).head? ≠ some '\x60' ∧ (content value).getLast? ≠ some '\x60' := by
  unfold content
  split
  · rw [List.getLast?_append_of_ne_nil _ (by decide)]
    exact ⟨by simp, by decide⟩
  · rename_i hnone
    have hnone : '\x60' ∉ value := by simpa using hnone
    exact ⟨fun h => hnone (List.mem_of_head? h), fun h => hnone (List.mem_of_getLast? h)⟩

theorem strip_content {value : Text} (hvalue : Text.trim value = value) :
    strip (content value) = value := by
  unfold content
  split
  · have hlast : (" ".toList ++ value ++ " ".toList).getLast? = some ' ' :=
      List.getLast?_append_of_ne_nil _ (by decide)
    rw [strip, if_pos ⟨rfl, hlast⟩]
    simp
  · have hhead : value.head? ≠ some ' ' := fun h => by
      have := (Text.trim_eq_self_iff.mp hvalue).1 _ h
      simp at this
    simp [strip, hhead]

/-- A code span is read back, whatever stands behind it, unless that starts with a backtick. -/
theorem read?_codeSpan {value : Text} (hne : value ≠ []) (hvalue : Text.trim value = value)
    {behind : Text} (hbehind : behind.head? ≠ some '\x60') :
    read? (codeSpan value ++ behind) = some (value, behind) := by
  obtain ⟨hhead, hlast⟩ := content_ends value
  have hinside : (content value ++ (backticks (longestBacktickRun value + 1) ++ behind)).head? ≠
      some '\x60' := by
    rwa [List.head?_append_of_ne_nil _ (content_ne_nil hne)]
  obtain ⟨htake, hdrop⟩ := takeWhile_backticks_append (longestBacktickRun value + 1) hinside
  have hcut : cutAtRun? (longestBacktickRun value + 1) 0
      (content value ++ (backticks (longestBacktickRun value + 1) ++ behind)) =
        some (content value, behind) :=
    cutAtRun?_append (not_backticks_infix_content value) (fun _ => rfl) hlast hbehind
  have hlength : (backticks (longestBacktickRun value + 1)).length = longestBacktickRun value + 1 :=
    List.length_replicate
  have hopen : (backticks (longestBacktickRun value + 1)).isEmpty = false := rfl
  simp only [read?, codeSpan_eq, List.append_assoc, htake, hdrop, hopen, hlength, hcut,
    Option.map_some, strip_content hvalue, Bool.false_eq_true, if_false]

end CodeSpan

/-! ## Code spans in a row -/

namespace Markdown

theorem getLast?_codeSpan (value : Text) : (codeSpan value).getLast? = some '\x60' := by
  rw [CodeSpan.codeSpan_eq, List.getLast?_append_of_ne_nil _ (by simp [backticks]), backticks,
    List.replicate_succ', List.getLast?_concat]

theorem output_writeNodes_inlineCode (w : Writer) (hw : w.output.getLast? = some '\x60')
    (values : List Text) :
    (writeNodes w (values.map .inlineCode)).output =
      w.output ++ values.flatMap (" ".toList ++ codeSpan ·) := by
  induction values generalizing w with
  | nil => simp [writeNodes]
  | cons value values ih =>
    have hspan : (w.pushCodeSpan value).output = w.output ++ " ".toList ++ codeSpan value := by
      simp [Writer.pushCodeSpan, Writer.emit, hw]
    have hlast : (w.pushCodeSpan value).output.getLast? = some '\x60' := by
      rw [hspan, List.getLast?_append, getLast?_codeSpan]
      rfl
    rw [List.map_cons, writeNodes, writeNode, ih _ hlast, hspan]
    simp

/-- Code spans in a row have a space between any two. -/
theorem inline_inlineCode (values : List Text) :
    inline (values.map .inlineCode) = " ".toList.intercalate (values.map codeSpan) := by
  cases values with
  | nil => simp [inline, writeNodes, Writer.start]
  | cons value values =>
    let w : Writer := { Writer.start with atLineStart := false }
    have hspan : (w.pushCodeSpan value).output = codeSpan value := by
      simp [w, Writer.pushCodeSpan, Writer.emit, Writer.start]
    have hlast : (w.pushCodeSpan value).output.getLast? = some '\x60' := by
      rw [hspan, getLast?_codeSpan]
    rw [inline, List.map_cons, writeNodes, writeNode, output_writeNodes_inlineCode _ hlast, hspan,
      List.map_cons, Text.intercalate_cons, List.flatMap_map]

end Markdown

namespace CodeSpan

theorem readAll_of_read? {s value behind : Text} (h : read? s = some (value, behind)) :
    readAll s =
      (value :: (readAll (dropSpace behind)).1, (readAll (dropSpace behind)).2) := by
  rw [readAll]
  split
  · rename_i hnone
    rw [h] at hnone
    cases hnone
  · rename_i hsome
    rw [h] at hsome
    cases hsome
    rfl

theorem readAll_nil : readAll [] = ([], []) := by
  rw [readAll]
  rfl

/-- Spans in a row are read one by one. -/
theorem readAll_intercalate {values : List Text} (h : ∀ v ∈ values, v ≠ [] ∧ Text.trim v = v) :
    readAll (" ".toList.intercalate (values.map codeSpan)) = (values, []) := by
  induction values with
  | nil => exact readAll_nil
  | cons value values ih =>
    obtain ⟨⟨hne, hvalue⟩, hmore⟩ := List.forall_mem_cons.mp h
    -- Behind a span stands nothing, or the space before the next one.
    have hbehind : ∃ behind : Text, behind.head? ≠ some '\x60' ∧
        dropSpace behind = " ".toList.intercalate (values.map codeSpan) ∧
        " ".toList.intercalate ((value :: values).map codeSpan) = codeSpan value ++ behind := by
      cases values with
      | nil => exact ⟨[], by simp, rfl, by simp⟩
      | cons next values =>
        exact ⟨" ".toList ++ " ".toList.intercalate ((next :: values).map codeSpan), by simp, rfl,
          by simp [List.intercalate_cons_cons]⟩
    obtain ⟨behind, hhead, hdrop, hall⟩ := hbehind
    rw [hall, readAll_of_read? (read?_codeSpan hne hvalue hhead), hdrop, ih hmore]

/-- **Code spans can be read back.** A list of values that are not empty and have no blanks at their
ends is written as code spans and read back as it was, with nothing left over: no run of backticks
in a value, at its ends or in the span beside it is taken for a delimiter. -/
theorem readAll_inline {values : List Text} (h : ∀ v ∈ values, v ≠ [] ∧ Text.trim v = v) :
    readAll (Markdown.inline (values.map .inlineCode)) = (values, []) := by
  rw [inline_inlineCode, readAll_intercalate h]

/-- Values that are backticks only, or start or end with one, side by side. -/
theorem readAll_inline_backticks :
    let values := ["``".toList, "`a``b`".toList, "int".toList, "x ` y".toList]
    (∀ v ∈ values, v ≠ [] ∧ Text.trim v = v) ∧
      Markdown.inline (values.map .inlineCode) =
        "``` `` ``` ``` `a``b` ``` `int` `` x ` y ``".toList ∧
      readAll "``` `` ``` ``` `a``b` ``` `int` `` x ` y ``".toList = (values, []) := by
  intro values
  have hvalues : ∀ v ∈ values, v ≠ [] ∧ Text.trim v = v := by decide
  have hwritten : Markdown.inline (values.map .inlineCode) =
      "``` `` ``` ``` `a``b` ``` `int` `` x ` y ``".toList := by decide
  exact ⟨hvalues, hwritten, hwritten ▸ readAll_inline hvalues⟩

end CodeSpan

end ApiDocs
