import Mathlib.Algebra.Order.BigOperators.Group.List
import Mathlib.Algebra.Order.Ring.Nat
import ApiDocs.Proofs.Docstring.Entries

/-!
# The weight of what is written and of what is read

A character counts if it is a line break, or if it is neither blank nor one of the colons and
parentheses around names and types; each line and each documented thing counts one more. Writing
keeps this weight. Reading never adds to it, and it loses some wherever a line opens a section or
a field, since the header or the keyword is lost. So a docstring that is read back as it was written
has no such line in any of its items.

* `Text.ink`, `Line.weight`, `Block.Yield.weight`, `Docstring.weight`: what counts.
* `Item.weight_collectLines_le`: items weigh no more than their lines.
* `Block.weight_gather_le`: blocks weigh less than their lines, by one for each of them.
* `Docstring.Entry.weight_lines`: the lines of an entry weigh what it says.
* `Docstring.weight_entrySection_le`: what is read from a written section weighs less than its
  entries wherever something in it opens another.
* `Docstring.weight_parse_le`: a docstring weighs no more than what its blocks add.
-/

namespace ApiDocs

open scoped List

/-! ## What counts -/

namespace Text

/-- Whether a character counts. -/
def isInked (c : Char) : Bool := c == '\n' || !(isBlank c || c == ':' || c == '(' || c == ')')

/-- The number of characters that count. -/
def ink (s : Text) : Nat := s.countP isInked

@[simp] theorem ink_nil : ink [] = 0 := rfl

@[simp] theorem ink_append (s t : Text) : ink (s ++ t) = ink s + ink t := List.countP_append

theorem ink_cons (c : Char) (s : Text) : ink (c :: s) = ink s + if isInked c then 1 else 0 :=
  List.countP_cons

theorem ink_le_of_sublist {s t : Text} (h : s <+ t) : ink s ≤ ink t := h.countP_le

theorem ink_trim_le (s : Text) : ink (trim s) ≤ ink s := ink_le_of_sublist (Field.trim_sublist s)

theorem isInked_of_letter {c : Char} (h : c.toLower.isLower = true) : isInked c = true := by
  have hblank : isBlank c = false := by
    by_contra hb
    have := forall_isBlank (P := fun c => c.toLower.isLower = false) (by decide) (by simpa using hb)
    simp [h] at this
  by_contra hc
  have hmark : c = ':' ∨ c = '(' ∨ c = ')' := by
    simp only [isInked, hblank, Bool.or_eq_true, Bool.not_eq_true', not_or, Bool.not_eq_false,
      beq_iff_eq] at hc
    tauto
  rcases hmark with rfl | rfl | rfl <;> exact absurd h (by decide)

/-- The ink of lines that are put together, each with the line break or the blank before it. -/
theorem ink_appendLine_le (d l : Text) : ink (Item.appendLine d l) ≤ ink d + (ink l + 1) := by
  unfold Item.appendLine
  split
  · omega
  · have hsep := List.countP_le_length (p := isInked)
      (l := [if Item.inCodeSpan d then '\n' else ' '])
    rw [← List.singleton_append, ink_append, ink_append]
    have hone : ink [if Item.inCodeSpan d then '\n' else ' '] ≤ 1 := hsep
    omega

theorem ink_appendLines_le (d : Text) (ls : List Text) :
    ink (Item.appendLines d ls) ≤ ink d + (ls.map fun l => ink l + 1).sum := by
  induction ls generalizing d with
  | nil => simp [Item.appendLines]
  | cons l ls ih =>
    have hstep := ink_appendLine_le d l
    have hrest := ih (Item.appendLine d l)
    rw [List.map_cons, List.sum_cons]
    calc ink (Item.appendLines d (l :: ls))
        ≤ ink (Item.appendLine d l) + (ls.map fun l => ink l + 1).sum := hrest
      _ ≤ ink d + (ink l + 1 + (ls.map fun l => ink l + 1).sum) := by omega

end Text

/-- What a line counts for. -/
def Line.weight (l : Line) : Nat := if l.isBlank then 0 else Text.ink l.text + 1

/-- What a head counts for. -/
def Field.Head.weight (h : Field.Head) : Nat :=
  Text.ink h.name + Text.ink h.typeName + Text.ink h.description + 1

/-- What a parameter counts for. -/
def ParamTag.weight (p : ParamTag) : Nat :=
  Text.ink p.name + Text.ink p.typeName + Text.ink p.description + 1

/-- What a return value or an error counts for. -/
def TypedTag.weight (t : TypedTag) : Nat := Text.ink t.typeName + Text.ink t.description + 1

/-- What all that a block adds counts for; example code does not count. -/
def Block.Yield.weight (y : Block.Yield) : Nat :=
  (y.params.map ParamTag.weight).sum + (y.returned?.toList.map TypedTag.weight).sum +
    (y.errors.map TypedTag.weight).sum

/-- What all documented things count for. -/
def Docstring.weight (d : Docstring) : Nat :=
  (d.params.map ParamTag.weight).sum + (d.returns.toList.map TypedTag.weight).sum +
    (d.raises.map TypedTag.weight).sum

/-! ## Items -/

namespace Item

variable {head? : Text → Option Field.Head} {lines : List Line}

theorem weight_continued_le (i : Item) (l : Line) :
    (i.continued l).head.weight ≤ i.head.weight + (Text.ink l.text + 1) := by
  have hline := Text.ink_appendLine_le i.head.description l.trimmed
  have htrim := Text.ink_trim_le l.text
  simp only [continued, Field.Head.weight, Line.trimmed] at *
  omega

theorem weight_foldl_continued_le (i : Item) (lines : List Line) :
    (lines.foldl continued i).head.weight ≤
      i.head.weight + (lines.map fun l => Text.ink l.text + 1).sum := by
  induction lines generalizing i with
  | nil => simp
  | cons l lines ih =>
    have hstep := weight_continued_le i l
    have hrest := ih (i.continued l)
    rw [List.foldl_cons, List.map_cons, List.sum_cons]
    omega

/-- Items weigh no more than the first of them and the lines that follow. -/
theorem weight_collectFrom_le
    (hhead : ∀ l ∈ lines, ∀ h, head? l.trimmed = some h → h.weight ≤ Text.ink l.text + 1)
    (item : Item) :
    ((collectFrom head? item lines).map (·.head.weight)).sum ≤
      item.head.weight + (lines.map fun l => Text.ink l.text + 1).sum := by
  fun_induction collectFrom head? item lines with
  | case1 item => simp
  | case2 item l rest hdeep ih =>
    have hstep := weight_continued_le item l
    have hrest := ih fun m hm => hhead m (List.mem_cons_of_mem _ hm)
    rw [List.map_cons, List.sum_cons]
    omega
  | case3 item l rest hdeep head hsome ih =>
    have hstep := hhead l List.mem_cons_self head hsome
    have hrest := ih fun m hm => hhead m (List.mem_cons_of_mem _ hm)
    rw [List.map_cons, List.sum_cons, List.map_cons, List.sum_cons]
    simp only at hrest
    omega
  | case4 item l rest hdeep hnone =>
    have hstep := weight_continued_le item l
    have hrest := weight_foldl_continued_le (item.continued l) rest
    rw [List.map_singleton, List.sum_singleton, List.map_cons, List.sum_cons]
    omega

theorem weight_collectLines_le (head? : Text → Option Field.Head) (lines : List Line)
    (hhead : ∀ l ∈ lines, ∀ h, head? l.trimmed = some h → h.weight ≤ Text.ink l.text + 1) :
    ((collectLines head? lines).map (·.head.weight)).sum ≤
      (lines.map fun l => Text.ink l.text + 1).sum := by
  fun_induction collectLines head? lines with
  | case1 => simp
  | case2 l rest head hsome =>
    have hstep := hhead l List.mem_cons_self head hsome
    have hrest := weight_collectFrom_le (fun m hm => hhead m (List.mem_cons_of_mem _ hm))
      ⟨l.indent, head⟩
    rw [List.map_cons, List.sum_cons]
    simp only at hrest
    omega
  | case3 l rest hnone ih =>
    have hrest := ih fun m hm => hhead m (List.mem_cons_of_mem _ hm)
    rw [List.map_cons, List.sum_cons]
    omega

end Item

/-! ## Blocks -/

theorem Line.sum_weight_le_of_sublist {ls ms : List Line} (h : ls <+ ms) :
    (ls.map Line.weight).sum ≤ (ms.map Line.weight).sum :=
  (h.map Line.weight).sum_le_sum (by simp)

theorem Line.sum_ink_filter_le (lines : List Line) :
    ((lines.filter (!·.isBlank)).map fun l => Text.ink l.text + 1).sum ≤
      (lines.map Line.weight).sum := by
  have hsame : (lines.filter (!·.isBlank)).map (fun l => Text.ink l.text + 1) =
      (lines.filter (!·.isBlank)).map Line.weight := by
    refine List.map_congr_left fun l hl => ?_
    have hb := (List.mem_filter.mp hl).2
    simp_all [Line.weight]
  rw [hsame]
  exact Line.sum_weight_le_of_sublist List.filter_sublist

theorem Field.weight_paramHead?_le {s : Text} {h : Field.Head}
    (hs : Field.paramHead? (Text.trim s) = some h) : h.weight ≤ Text.ink s + 1 := by
  have hsub := Text.ink_le_of_sublist (Field.paramHead?_spec hs).2.2.2.2
  have htrim := Text.ink_trim_le s
  simp only [Text.ink_append, Field.Head.weight] at *
  omega

theorem Field.weight_errorHead?_le {s : Text} {h : Field.Head}
    (hs : Field.errorHead? (Text.trim s) = some h) : h.weight ≤ Text.ink s + 1 := by
  obtain ⟨hname, -, -, hsub⟩ := Field.errorHead?_spec hs (Text.trim_trim s)
  have hink := Text.ink_le_of_sublist hsub
  have htrim := Text.ink_trim_le s
  simp only [Text.ink_append, Field.Head.weight, hname, Text.ink_nil] at *
  omega

namespace Block

theorem weight_params_le (lines : List Line) :
    ((Item.params lines).map ParamTag.weight).sum ≤ (lines.map Line.weight).sum := by
  have hitems := Item.weight_collectLines_le Field.paramHead? (lines.filter (!·.isBlank))
    fun l _ h hh => Field.weight_paramHead?_le hh
  have hlines := Line.sum_ink_filter_le lines
  rw [Item.params, List.map_map]
  exact hitems.trans hlines

theorem weight_errors_le (lines : List Line) :
    ((Item.errors lines).map TypedTag.weight).sum ≤ (lines.map Line.weight).sum := by
  have hitems := Item.weight_collectLines_le Field.errorHead? (lines.filter (!·.isBlank))
    fun l _ h hh => Field.weight_errorHead?_le hh
  have hlines := Line.sum_ink_filter_le lines
  rw [Item.errors, List.map_map]
  refine (List.sum_le_sum fun i _ => ?_).trans (hitems.trans hlines)
  simp only [Function.comp, TypedTag.weight, Field.Head.weight]
  omega

theorem weight_returned?_le (lines : List Line) :
    ((Item.returned? lines).toList.map TypedTag.weight).sum ≤ (lines.map Line.weight).sum := by
  have hlines := Line.sum_ink_filter_le lines
  unfold Item.returned?
  cases hfilter : lines.filter (!·.isBlank) with
  | nil => simp
  | cons first more =>
    have hsub := Text.ink_le_of_sublist (Item.returnedHead_spec (Text.trim_trim first.text)).2.2
    have hmore := Text.ink_appendLines_le (Item.returnedHead first.trimmed).description
      (more.map (·.trimmed))
    have hfirst := Text.ink_trim_le first.text
    have hrest : (((more.map (·.trimmed)).map fun l => Text.ink l + 1)).sum ≤
        (more.map fun l => Text.ink l.text + 1).sum := by
      rw [List.map_map]
      exact List.sum_le_sum fun l _ => Nat.succ_le_succ (Text.ink_trim_le l.text)
    rw [hfilter, List.map_cons, List.sum_cons] at hlines
    simp only [List.map_cons, Option.toList_some, List.map_nil, List.sum_singleton,
      TypedTag.weight, Text.ink_append, Line.trimmed] at *
    omega

theorem weight_body_le (k : Section) (lines : List Line) :
    (body k lines).yield.weight ≤ (lines.map Line.weight).sum := by
  cases k with
  | parameters =>
    simpa [yield, Yield.weight, params, returned?, errors] using weight_params_le lines
  | returns =>
    simpa [yield, Yield.weight, params, returned?, errors] using weight_returned?_le lines
  | raises =>
    simpa [yield, Yield.weight, params, returned?, errors] using weight_errors_le lines
  | examples => simp [yield, Yield.weight, params, returned?, errors]

/-- A field weighs less than its lines, since its keyword is lost. -/
theorem weight_field_lt {k : Section} {s : Text} (h : Line.fieldSection? s = some k)
    (continuation : List Text) :
    (field k (Text.trim s) continuation).yield.weight <
      Text.ink s + 1 + (continuation.map fun l => Text.ink l + 1).sum := by
  obtain ⟨declared, inline, hdecl, hdt, -, ⟨c, hc, hsub⟩, hne⟩ := declaration?_spec h
  have hink := Text.ink_le_of_sublist hsub
  have htrim := Text.ink_trim_le s
  have hmore := Text.ink_appendLines_le inline continuation
  rw [Text.ink_cons, Text.isInked_of_letter hc, if_pos rfl, Text.ink_append] at hink
  have htag : (TypedTag.weight ⟨declared, Item.appendLines inline continuation⟩) <
      Text.ink s + 1 + (continuation.map fun l => Text.ink l + 1).sum := by
    simp only [TypedTag.weight]
    omega
  cases k with
  | parameters =>
    obtain ⟨-, -, -, hparts, hdesc⟩ :=
      declaredParam_spec hdt (hne rfl) (Item.appendLines inline continuation)
    have hparam := Text.ink_le_of_sublist hparts
    simp only [TypedTag.weight, Text.ink_append] at htag hparam
    simp only [yield, Yield.weight, params, returned?, errors, hdecl, Option.map_some,
      Option.toList_some, Option.toList_none, List.map_cons, List.map_nil, List.sum_cons,
      List.sum_nil, ParamTag.weight, hdesc]
    omega
  | returns | raises =>
    simpa [yield, Yield.weight, params, returned?, errors, hdecl] using htag
  | examples =>
    simp only [yield, Yield.weight, params, returned?, errors, Option.toList_none, List.map_nil,
      List.sum_nil]
    omega

/-- A block weighs less than its lines, since its header or its keyword is lost. -/
theorem weight_opened?_lt {l : Line} {following : List Line} {b : Block}
    (hl : ∀ k, l.kind = .field k → Line.fieldSection? l.text = some k)
    (h : opened? l following = some b) :
    b.yield.weight < l.weight + (following.map Line.weight).sum := by
  have howned : ((ownedLines following).map Line.weight).sum ≤
      (following.map Line.weight).sum := Line.sum_weight_le_of_sublist List.filter_sublist
  cases hkind : l.kind with
  | header k =>
    simp only [opened?, hkind, Option.some.injEq] at h
    have hbody := weight_body_le k (ownedLines following)
    have hline : 0 < l.weight := by simp [Line.weight, Line.isBlank, hkind]
    rw [← h]
    omega
  | field k =>
    simp only [opened?, hkind, Option.some.injEq] at h
    have hfield := weight_field_lt (hl k hkind)
      (((ownedLines following).takeWhile (!·.isBlank)).map (·.trimmed))
    have hline : l.weight = Text.ink l.text + 1 := by simp [Line.weight, Line.isBlank, hkind]
    have hmore : ((((ownedLines following).takeWhile (!·.isBlank)).map (·.trimmed)).map
        fun s => Text.ink s + 1).sum ≤ ((ownedLines following).map Line.weight).sum := by
      have hsub : (ownedLines following).takeWhile (!·.isBlank) <+ ownedLines following :=
        List.takeWhile_sublist _
      refine le_trans ?_ (Line.sum_weight_le_of_sublist hsub)
      rw [List.map_map]
      refine List.sum_le_sum fun m hm => ?_
      have hb : m.isBlank = false := by simpa using List.mem_takeWhile_imp hm
      have htrim := Text.ink_trim_le m.text
      simp only [Function.comp, Line.trimmed, Line.weight, hb]
      simpa using htrim
    rw [← h]
    simp only [Line.trimmed] at hfield hmore ⊢
    omega
  | blank | underline | text => simp [opened?, hkind] at h

/-- Blocks weigh less than the lines from the first of them on, by one for each of them. -/
theorem weight_gather_le {ls : List Line}
    (h : ∀ l ∈ ls, ∀ k, l.kind = .field k → Line.fieldSection? l.text = some k) :
    (((gather ls).2.map Block.yield).map Yield.weight).sum + ls.countP (·.opens) +
      ((gather ls).1.map Line.weight).sum ≤ (ls.map Line.weight).sum := by
  induction ls with
  | nil => simp [gather]
  | cons l ls ih =>
    have hrest := ih fun m hm => h m (List.mem_cons_of_mem _ hm)
    rw [List.map_cons, List.sum_cons]
    cases hl : l.opens with
    | true =>
      obtain ⟨b, hb, hg⟩ := gather_cons_of_opens hl ls
      have hblock := weight_opened?_lt (h l List.mem_cons_self) hb
      rw [hg, List.countP_cons_of_pos (by simpa using hl)]
      simp only [List.map_cons, List.sum_cons, List.map_nil, List.sum_nil]
      omega
    | false =>
      rw [gather_cons_of_not_opens hl, List.countP_cons_of_neg (by simpa using hl)]
      simp only [List.map_cons, List.sum_cons]
      omega

end Block

/-! ## Entries and docstrings -/

theorem Line.sum_weight_classify_le (xs : List Text) :
    ((Line.classify xs).map Line.weight).sum ≤ (xs.map fun s => Text.ink s + 1).sum := by
  conv_rhs => rw [← Line.map_text_classify xs, List.map_map]
  refine List.sum_le_sum fun l _ => ?_
  simp only [Line.weight, Function.comp]
  split <;> omega

namespace Docstring

/-- What an entry counts for. -/
def Entry.weight (e : Entry) : Nat := Text.ink e.head + Text.ink e.description + 1

theorem Entry.ink_description (e : Entry) : Text.ink e.description =
    Text.ink e.first + (e.laterLines.map fun l => Text.ink l + 1).sum := by
  have hjoin : e.description = e.first ++ e.laterLines.flatMap ("\n".toList ++ ·) := by
    rw [← Text.intercalate_cons, ← e.first_eq]
    exact (List.intercalate_splitOn '\n').symm
  have hlater : ∀ ls : List Text, Text.ink (ls.flatMap ("\n".toList ++ ·)) =
      (ls.map fun l => Text.ink l + 1).sum := by
    intro ls
    induction ls with
    | nil => rfl
    | cons l ls ih =>
      have hbreak : Text.ink "\n".toList = 1 := by decide
      rw [List.flatMap_cons, Text.ink_append, Text.ink_append, ih, hbreak, List.map_cons,
        List.sum_cons]
      omega
  conv_lhs => rw [hjoin]
  rw [Text.ink_append, hlater]

/-- The lines of an entry weigh what it says. -/
theorem Entry.weight_lines (e : Entry) :
    (e.lines.map fun l => Text.ink l + 1).sum = e.weight := by
  have hpad : ∀ l, Text.ink ("    ".toList ++ l) = Text.ink l := by
    intro l
    have hblanks : Text.ink "    ".toList = 0 := by decide
    rw [Text.ink_append, hblanks, Nat.zero_add]
  have hhead : Text.ink e.headLine = Text.ink e.head + Text.ink e.first := by
    rw [Entry.headLine, Text.ink_append]
    split
    · simp_all
    · rw [Text.ink_cons]
      simp [Text.isInked]
  rw [Entry.lines, List.map_cons, List.sum_cons, List.map_map, hhead, Entry.weight,
    e.ink_description]
  have hlater : (e.laterLines.map ((fun l => Text.ink l + 1) ∘ ("    ".toList ++ ·))) =
      e.laterLines.map fun l => Text.ink l + 1 :=
    List.map_congr_left fun l _ => by simp only [Function.comp, hpad]
  rw [hlater]
  omega

theorem Entry.weight_flatMap_lines (es : List Entry) :
    ((es.flatMap Entry.lines).map fun l => Text.ink l + 1).sum = (es.map Entry.weight).sum := by
  induction es with
  | nil => rfl
  | cons e es ih =>
    rw [List.flatMap_cons, List.map_append, List.sum_append, e.weight_lines, ih, List.map_cons,
      List.sum_cons]

/-- What is read from a section weighs less than its entries, by one for each line in it that opens
another section or a field. -/
theorem weight_entrySection_le {k : Section} {es : List Entry} (h : ∀ e ∈ es, e.Normal) :
    (((entrySection k es).flatMap yields).map Block.Yield.weight).sum +
      (Line.classify (es.flatMap Entry.lines)).countP (·.opens) ≤ (es.map Entry.weight).sum := by
  by_cases hne : es = []
  · rw [hne]
    exact Nat.zero_le _
  · have hfields : ∀ l ∈ Line.classify (es.flatMap Entry.lines), ∀ k, l.kind = .field k →
        Line.fieldSection? l.text = some k := by
      intro l hl
      exact (Line.kind_spec hl).2
    have hgather := Block.weight_gather_le hfields
    have hlines := Line.sum_weight_classify_le (es.flatMap Entry.lines)
    have hbody := Block.weight_body_le k
      (Block.ownedLines (Block.gather (Line.classify (es.flatMap Entry.lines))).1)
    have howned : ((Block.ownedLines
          (Block.gather (Line.classify (es.flatMap Entry.lines))).1).map Line.weight).sum ≤
        ((Block.gather (Line.classify (es.flatMap Entry.lines))).1.map Line.weight).sum :=
      Line.sum_weight_le_of_sublist List.filter_sublist
    rw [Entry.weight_flatMap_lines] at hlines
    rw [yields_entrySection h hne, List.map_cons, List.sum_cons]
    omega

theorem weight_yields_le (ys : List Block.Yield) :
    ((ys.flatMap (·.params)).map ParamTag.weight).sum +
        ((ys.findSome? (·.returned?)).toList.map TypedTag.weight).sum +
        ((ys.flatMap (·.errors)).map TypedTag.weight).sum ≤
      (ys.map Block.Yield.weight).sum := by
  induction ys with
  | nil => simp
  | cons y ys ih =>
    have hreturned : (((y :: ys).findSome? (·.returned?)).toList.map TypedTag.weight).sum ≤
        (y.returned?.toList.map TypedTag.weight).sum +
          ((ys.findSome? (·.returned?)).toList.map TypedTag.weight).sum := by
      cases hy : y.returned? <;> simp [hy]
    simp only [List.flatMap_cons, List.map_append, List.sum_append, List.map_cons, List.sum_cons]
      at *
    simp only [Block.Yield.weight]
    omega

/-- A docstring weighs no more than what its blocks add. -/
theorem weight_parse_le (s : Text) :
    (parse s).weight ≤ ((yields s).map Block.Yield.weight).sum := by
  rw [parse_eq]
  exact weight_yields_le (yields s)

end Docstring

end ApiDocs
