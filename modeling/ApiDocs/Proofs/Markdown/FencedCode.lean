import Mathlib.Order.Bounds.Defs
import ApiDocs.Page.Style
import ApiDocs.Proofs.Markdown.Chunks

/-!
# Reading fenced code

A block of code stands between two fences of backticks. It ends at the first line that could be its
closing fence, so the fences have to be longer than any run of backticks in the code. Then no line
of the code is such a line, whatever the code is: what is read between the fences is the code
itself, and nothing stands below.

* `Markdown.le_longestBacktickRun_iff`: what the longest run says about a text.
* `Markdown.isLeast_fenceLength`: no shorter fence would do.
* `Markdown.FencedCode.read?`: the rule by which a block of code is read.
* `Markdown.closesFence_eq_false`: no line of the code closes the block.
* `Markdown.read?_styleAs`: code between fences is read back.
-/

namespace ApiDocs

namespace Markdown

/-! ## Runs of backticks -/

theorem backticks_infix_backticks_iff {n m : Nat} : backticks n <:+: backticks m ↔ n ≤ m := by
  constructor
  · intro h
    simpa [backticks] using h.length_le
  · intro h
    obtain ⟨k, rfl⟩ := Nat.exists_eq_add_of_le h
    exact ⟨[], backticks k, by simp [backticks, List.replicate_append_replicate]⟩

/-- A run of backticks lies on one side of any other character. -/
theorem backticks_infix_append_cons {n : Nat} {c : Char} (hc : c ≠ '\x60') {s t : Text}
    (h : backticks n <:+: s ++ c :: t) : backticks n <:+: s ∨ backticks n <:+: t := by
  obtain ⟨a, b, hab⟩ := h
  rw [List.append_assoc, List.append_eq_append_iff] at hab
  rcases hab with ⟨s', rfl, hs'⟩ | ⟨a', -, ha'⟩
  · rw [List.append_eq_append_iff] at hs'
    rcases hs' with ⟨s'', rfl, -⟩ | ⟨run, hrun, ht⟩
    · exact .inl ⟨a, s'', by simp⟩
    · -- the character itself would be in the run, or the run ends before it
      cases run with
      | nil => exact .inl ⟨a, [], by simp [hrun]⟩
      | cons d run =>
        have hd : d ∈ backticks n := by simp [hrun]
        rw [List.cons_append, List.cons.injEq] at ht
        exact absurd (ht.1.trans (List.eq_of_mem_replicate hd)) hc
  · cases a' with
    | nil =>
      cases n with
      | zero => exact .inl ⟨[], s, rfl⟩
      | succ n =>
        rw [backticks, List.replicate_succ, List.nil_append, List.cons_append,
          List.cons.injEq] at ha'
        exact absurd ha'.1 hc
    | cons d a' =>
      rw [List.cons_append, List.cons.injEq] at ha'
      exact .inr ⟨a', b, by rw [ha'.2, List.append_assoc]⟩

theorem backticks_append_cons (run : Nat) (s : Text) :
    backticks run ++ '\x60' :: s = backticks (run + 1) ++ s := by
  simp [backticks, List.replicate_succ']

/-- What is found after `run` backticks, none of which is missing from the best run so far. -/
theorem le_longestRunFrom_iff {n best run : Nat} (hrun : run ≤ best) (s : Text) :
    n ≤ longestRunFrom best run s ↔ n ≤ best ∨ backticks n <:+: backticks run ++ s := by
  induction s generalizing best run with
  | nil =>
    rw [longestRunFrom, List.append_nil, backticks_infix_backticks_iff]
    omega
  | cons c s ih =>
    rw [longestRunFrom]
    by_cases hc : c = '\x60'
    · have hhere : n ≤ run + 1 → backticks n <:+: backticks (run + 1) ++ s := fun h =>
        (backticks_infix_backticks_iff.mpr h).trans (List.prefix_append _ _).isInfix
      rw [if_pos (by simpa using hc), ih (Nat.le_max_right _ _), hc, backticks_append_cons]
      constructor
      · rintro (hn | hn)
        · rcases Nat.le_total best (run + 1) with hbest | hbest
          · exact .inr (hhere (Nat.max_eq_right hbest ▸ hn))
          · exact .inl (Nat.max_eq_left hbest ▸ hn)
        · exact .inr hn
      · exact Or.imp_left fun hn => Nat.le_trans hn (Nat.le_max_left _ _)
    · rw [if_neg (by simpa using hc), ih (Nat.zero_le _)]
      constructor
      · rintro (hn | hn)
        · exact .inl hn
        · exact .inr (hn.trans ⟨backticks run ++ [c], [], by simp [backticks]⟩)
      · rintro (hn | hn)
        · exact .inl hn
        · rcases backticks_infix_append_cons hc hn with hn | hn
          · exact .inl (Nat.le_trans (backticks_infix_backticks_iff.mp hn) hrun)
          · exact .inr hn

theorem le_longestBacktickRun_iff {n : Nat} {s : Text} :
    n ≤ longestBacktickRun s ↔ backticks n <:+: s := by
  rw [longestBacktickRun, le_longestRunFrom_iff (Nat.le_refl 0), Nat.le_zero]
  constructor
  · rintro (rfl | h)
    · exact ⟨[], s, rfl⟩
    · exact h
  · exact .inr

/-- A fence is as short as it may be. -/
theorem isLeast_fenceLength (s : Text) :
    IsLeast {n | 3 ≤ n ∧ ¬ backticks n <:+: s} (fenceLength s) := by
  simp only [← le_longestBacktickRun_iff]
  refine ⟨⟨Nat.le_max_left _ _, ?_⟩, ?_⟩
  · have := Nat.le_max_right 3 (longestBacktickRun s + 1)
    simp only [fenceLength]
    omega
  · rintro n ⟨hthree, hlong⟩
    simp only [fenceLength]
    omega

/-! ## Reading -/

/-- Whether a line closes a block of code that `n` backticks have opened: after three spaces at most
it is a run of so many backticks or more, with nothing but blanks behind. -/
def closesFence (n : Nat) (line : Text) : Bool :=
  let indent := line.takeWhile (· == ' ')
  let text := line.dropWhile (· == ' ')
  let run := text.takeWhile (· == '\x60')
  let behind := text.dropWhile (· == '\x60')
  indent.length ≤ 3 && n ≤ run.length && Text.blank behind

/-- A block of code as it is read. -/
structure FencedCode where
  /-- What stands behind the opening fence. -/
  info : Text
  /-- The lines between the fences, each with its line break. -/
  content : Text
  closingLine : Text
  /-- The lines below the closing fence. -/
  below : List Text
  deriving DecidableEq

/-- Reads the block of code at the start of a text: a line that starts with three backticks or more,
and all lines up to the first one that closes the block. -/
def FencedCode.read? (s : Text) : Option FencedCode :=
  match s.splitOn '\n' with
  | [] => none
  | opening :: lines =>
    let fence := opening.takeWhile (· == '\x60')
    if fence.length < 3 then none
    else
      match lines.dropWhile (!closesFence fence.length ·) with
      | [] => none
      | closingLine :: below =>
        some
          { info := opening.dropWhile (· == '\x60')
            content :=
              (lines.takeWhile (!closesFence fence.length ·)).flatMap (· ++ "\n".toList)
            closingLine, below }

/-- A text with its last line ended. -/
def endLine (s : Text) : Text := if s.getLast? = some '\n' then s else s ++ "\n".toList

/-! ## What is written -/

theorem endLine_eq (s : Text) : ∃ body, body <+: s ∧ endLine s = body ++ "\n".toList := by
  unfold endLine
  split
  · rename_i hlast
    exact ⟨s.dropLast, s.dropLast_prefix, (List.dropLast_append_getLast? '\n' hlast).symm⟩
  · exact ⟨s, List.prefix_rfl, rfl⟩

theorem toMarkdown_code (lang : Option Text) (value : Text) :
    Document.toMarkdown ⟨[.code lang value]⟩ = fencedBlock lang value := by
  rw [Document.toMarkdown, writeBlocks, List.foldl_nil, writeNode]
  rfl

theorem fencedBlock_eq (lang : Option Text) {value : Text} (hvalue : value ≠ []) :
    fencedBlock lang value =
      backticks (fenceLength value) ++ lang.getD [] ++ "\n".toList ++ endLine value ++
        backticks (fenceLength value) ++ "\n".toList := by
  have hended : (value ++ if value.isEmpty || value.getLast? == some '\n' then []
      else "\n".toList) = endLine value := by
    rw [endLine, List.isEmpty_eq_false_iff.mpr hvalue, Bool.false_or]
    by_cases hlast : value.getLast? = some '\n' <;> simp [hlast]
  rw [← hended, fencedBlock]
  simp only [List.append_assoc]

theorem isChunk_backticks {n : Nat} (hn : n ≠ 0) : IsChunk (backticks n) := by
  refine ⟨by simpa [backticks] using hn, fun hlast => ?_⟩
  have := List.eq_of_mem_replicate (List.mem_of_getLast? hlast)
  simp at this

/-- Code between fences, part by part. -/
theorem styleAs_fenced (own : Text) {text : Text} (htext : Text.blank text = false)
    (language : Text) :
    (Styler.fenced own).styleAs text language =
      backticks (fenceLength text) ++ language ++ "\n".toList ++ endLine text ++
        backticks (fenceLength text) := by
  have hlang : (if language.isEmpty then none else some language).getD [] = language := by
    cases language <;> rfl
  have hfence : fenceLength text ≠ 0 := by
    have := (isLeast_fenceLength text).1.1
    omega
  simp only [Styler.styleAs, Styler.fence, htext, Bool.false_eq_true, if_false, toMarkdown_code]
  rw [fencedBlock_eq _ (Text.ne_nil_of_blank_eq_false htext), hlang,
    dropEndWhile_chunk ((isChunk_backticks hfence).append_left _)]

/-! ## Reading what is written -/

/-- A line that closes a block has so many backticks in a row. -/
theorem backticks_infix_of_closesFence {n : Nat} {line : Text} (h : closesFence n line = true) :
    backticks n <:+: line := by
  simp only [closesFence, Bool.and_eq_true, decide_eq_true_iff] at h
  obtain ⟨⟨-, hn⟩, -⟩ := h
  have hrun : (line.dropWhile (· == ' ')).takeWhile (· == '\x60') =
      backticks ((line.dropWhile (· == ' ')).takeWhile (· == '\x60')).length := by
    refine List.eq_replicate_iff.mpr ⟨rfl, fun c hc => ?_⟩
    simpa using List.mem_takeWhile_imp hc
  have hline : (line.dropWhile (· == ' ')).takeWhile (· == '\x60') <:+: line :=
    (List.takeWhile_prefix _).isInfix.trans (List.dropWhile_suffix _).isInfix
  rw [hrun] at hline
  exact (backticks_infix_backticks_iff.mpr hn).trans hline

/-- No line of code closes the block, for its fences are longer than any run of backticks in it. -/
theorem closesFence_eq_false {text line : Text} (h : line <:+: text) :
    closesFence (fenceLength text) line = false := by
  by_contra hcloses
  have hrun := backticks_infix_of_closesFence (Bool.not_eq_false _ ▸ hcloses)
  exact (isLeast_fenceLength text).1.2 (hrun.trans h)

theorem takeWhile_backticks_append (n : Nat) {s : Text} (hs : s.head? ≠ some '\x60') :
    (backticks n ++ s).takeWhile (· == '\x60') = backticks n ∧
      (backticks n ++ s).dropWhile (· == '\x60') = s := by
  have hrun : ∀ c ∈ backticks n, (c == '\x60') = true := fun c hc => by
    simpa using List.eq_of_mem_replicate hc
  rw [List.takeWhile_append_of_pos hrun, List.dropWhile_append_of_pos hrun]
  cases s with
  | nil => simp
  | cons c s =>
    have hc : (c == '\x60') = false := by simpa using hs
    simp [hc]

theorem closesFence_backticks (n : Nat) : closesFence n (backticks n) = true := by
  cases n <;> simp [closesFence, backticks, List.replicate_succ]

theorem splitOn_fenced (n : Nat) {language body : Text} (hlanguage : '\n' ∉ language) :
    (backticks n ++ language ++ "\n".toList ++ (body ++ "\n".toList) ++ backticks n).splitOn '\n' =
      (backticks n ++ language) :: (body.splitOn '\n' ++ [backticks n]) := by
  have hticks : '\n' ∉ backticks n := by simp [backticks]
  have hparts : backticks n ++ language ++ "\n".toList ++ (body ++ "\n".toList) ++ backticks n =
      (backticks n ++ language) ++ '\n' :: (body ++ '\n' :: backticks n) := by
    simp
  rw [hparts, List.splitOn_append_cons_self, List.splitOn_append_cons_self,
    List.splitOn_eq_singleton (by simp [hticks, hlanguage]), List.splitOn_eq_singleton hticks]
  rfl

/-- Lines that do not close a block of code, and one that does. -/
theorem read?_of_splitOn {n : Nat} (hn : 3 ≤ n) {s language closingLine : Text}
    {lines below : List Text} (hlanguage : '\x60' ∉ language)
    (hs : s.splitOn '\n' = (backticks n ++ language) :: (lines ++ closingLine :: below))
    (hlines : ∀ l ∈ lines, closesFence n l = false) (hclosing : closesFence n closingLine = true) :
    FencedCode.read? s =
      some ⟨language, lines.flatMap (· ++ "\n".toList), closingLine, below⟩ := by
  have hhead : language.head? ≠ some '\x60' := fun h => hlanguage (List.mem_of_head? h)
  obtain ⟨htake, hdrop⟩ := takeWhile_backticks_append n hhead
  have hlength : (backticks n).length = n := List.length_replicate
  have hkept : ∀ l ∈ lines, (!closesFence n l) = true := fun l hl => by simp [hlines l hl]
  have hcontent : (lines ++ closingLine :: below).takeWhile (!closesFence n ·) = lines := by
    simp [List.takeWhile_append_of_pos hkept, hclosing]
  have hrest : (lines ++ closingLine :: below).dropWhile (!closesFence n ·) =
      closingLine :: below := by
    simp [List.dropWhile_append_of_pos hkept, hclosing]
  simp only [FencedCode.read?, hs, htake, hdrop, hlength, if_neg (Nat.not_lt.mpr hn), hcontent,
    hrest]

/-- **Fenced code can be read back.** The fence of a text is the shortest one of three backticks or
more that the text does not contain. Code that is not blank is read back from between its fences,
whatever it contains: with the language as it was given, if this has neither a backtick nor a line
break, with the code itself, whose last line is ended, and with nothing below the closing fence. -/
theorem read?_styleAs (text : Text) :
    IsLeast {n | 3 ≤ n ∧ ¬ backticks n <:+: text} (fenceLength text) ∧
      ∀ own language : Text, Text.blank text = false → '\x60' ∉ language → '\n' ∉ language →
        FencedCode.read? ((Styler.fenced own).styleAs text language) =
          some ⟨language, endLine text, backticks (fenceLength text), []⟩ := by
  refine ⟨isLeast_fenceLength text, fun own language htext hticks hbreak => ?_⟩
  obtain ⟨body, hbody, hended⟩ := endLine_eq text
  have hcontent : (body.splitOn '\n').flatMap (· ++ "\n".toList) = body ++ "\n".toList := by
    rw [Text.flatMap_append_newline (List.splitOn_ne_nil '\n' body)]
    exact congrArg (· ++ "\n".toList) (List.intercalate_splitOn '\n')
  rw [styleAs_fenced own htext, hended, ← hcontent]
  refine read?_of_splitOn (isLeast_fenceLength text).1.1 hticks ?_ ?_ (closesFence_backticks _)
  · rw [hcontent]
    exact splitOn_fenced _ hbreak
  · intro line hline
    exact closesFence_eq_false ((Text.isInfix_of_mem_splitOn hline).trans hbody.isInfix)

/-- Code that holds a block of code, in a language of which a fence says more than the name. -/
theorem read?_styleAs_nested :
    let text := "see:\n````\n```\nx\n````\n   `````".toList
    let language := "md title".toList
    Text.blank text = false ∧ '\x60' ∉ language ∧ '\n' ∉ language ∧ fenceLength text = 6 ∧
      FencedCode.read? ((Styler.fenced []).styleAs text language) =
        some ⟨language, text ++ "\n".toList, "``````".toList, []⟩ := by
  intro text language
  have htext : Text.blank text = false := by decide
  have hticks : '\x60' ∉ language := by decide
  have hbreak : '\n' ∉ language := by decide
  exact ⟨htext, hticks, hbreak, by decide,
    (read?_styleAs text).2 [] language htext hticks hbreak⟩

end Markdown

end ApiDocs
