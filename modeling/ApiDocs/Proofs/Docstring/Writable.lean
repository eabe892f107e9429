import ApiDocs.Proofs.Docstring.Entries

/-!
# Docstrings that survive being written

A docstring is written in one form, whatever form it was read from. Not all that can be read can
be said in that form: the name of a field may not be a name of an item, a type may not end where
its colon stands, a line of a description may open a section of its own, and a carriage return at
the end of a line of code is taken for part of the line ending.

* `ParamTag.Writable`, `TypedTag.Writable`, `ExampleBlock.Writable`, `Docstring.Writable`: what can
  be said in the written form.
* `ParamTag.read_entry_iff`, `TypedTag.read_entry_iff`: heads that are read back.
* `ParamTag.quiet_lines_iff`: parameters that open nothing by themselves.
-/

namespace ApiDocs

/-! ## What can be written -/

/-- The item of a parameter. -/
def ParamTag.entry (p : ParamTag) : Docstring.Entry :=
  ⟨if p.typeName.isEmpty then p.name ++ ":".toList
    else p.name ++ " (".toList ++ p.typeName ++ "):".toList, p.description⟩

/-- The item of a return value or an error. -/
def TypedTag.entry (t : TypedTag) : Docstring.Entry := ⟨t.typeName ++ ":".toList, t.description⟩

/-- The name is made of name characters, the type closes its own parentheses, the later lines of
the description are text, and the item is not a section word with its colon. -/
structure ParamTag.Writable (p : ParamTag) : Prop where
  name : ∀ c ∈ p.name, Field.isNameChar c = true
  type_closed : Field.closeParen? (p.typeName ++ ")".toList) = some (p.typeName, [])
  later_text : ∀ l ∈ Line.classify (p.description.splitOn '\n').tail, l.kind = .text
  no_header : ¬ (p.typeName = [] ∧ p.description = [] ∧ (Section.ofWord? p.name).isSome = true)

/-- The type is left out or ends at its colon, the later lines of the description are text, and
the first line opens neither a section nor a field. -/
structure TypedTag.Writable (t : TypedTag) : Prop where
  type_delimited : Field.DelimitedType t.typeName
  later_text : ∀ l ∈ Line.classify (t.description.splitOn '\n').tail, l.kind = .text
  head_text : Line.ownKind? t.entry.headLine = none

/-- No line of the code ends in a carriage return. -/
def ExampleBlock.Writable (b : ExampleBlock) : Prop :=
  ∀ l ∈ b.code.splitOn '\n', l.getLast? ≠ some '\r'

/-- No line of the description ends in a carriage return, and every documented thing can be
written. -/
structure Docstring.Writable (d : Docstring) : Prop where
  description : ∀ l ∈ d.description.splitOn '\n', l.getLast? ≠ some '\r'
  params : ∀ p ∈ d.params, p.Writable
  returns : ∀ t ∈ d.returns, t.Writable
  raises : ∀ t ∈ d.raises, t.Writable
  exampleBlocks : ∀ b ∈ d.exampleBlocks, b.Writable

/-! ## Parameters -/

namespace ParamTag

open Docstring

variable {p : ParamTag}

theorem entry_head_eq (p : ParamTag) : ∃ rest, p.entry.head = p.name ++ rest ++ [':'] ∧
    (p.typeName = [] ∧ rest = [] ∨
      p.typeName ≠ [] ∧ rest = " (".toList ++ p.typeName ++ ")".toList) := by
  unfold entry
  by_cases ht : p.typeName = []
  · exact ⟨[], by simp [ht], .inl ⟨ht, rfl⟩⟩
  · exact ⟨_, by simp [ht], .inr ⟨ht, rfl⟩⟩

theorem Normal.entry (h : p.Normal) : p.entry.Normal := by
  obtain ⟨rest, hhead, hrest⟩ := p.entry_head_eq
  obtain ⟨c, name, hname⟩ := List.exists_cons_of_ne_nil h.name_ne_nil
  have hsolid : ∀ d ∈ p.name, d ≠ '\n' := by
    rintro d hd rfl
    have := h.name_solid _ hd
    simp at this
  refine ⟨?_, ?_, by rw [hhead]; simp, h.typed.description⟩
  · rw [hhead, Text.trim_eq_self_iff, hname]
    refine ⟨fun d hd => ?_, fun d hd => ?_⟩
    · obtain rfl : c = d := by simpa using hd
      exact h.name_solid c (hname ▸ List.mem_cons_self)
    · rw [List.getLast?_concat] at hd
      obtain rfl := Option.some.inj hd
      decide
  · rw [hhead]
    intro hnl
    rcases List.mem_append.mp hnl with hnl | hnl
    · rcases List.mem_append.mp hnl with hnl | hnl
      · exact hsolid _ hnl rfl
      · rcases hrest with ⟨-, rfl⟩ | ⟨-, rfl⟩
        · simp at hnl
        · exact h.typed.type_line (by simpa using hnl)
    · simp at hnl

/-- A parameter is read back exactly if its name is one and its type closes its parentheses. -/
theorem read_entry_iff (h : p.Normal) :
    (p.entry.read Field.paramHead?).map
        (fun i => (⟨i.head.name, i.head.typeName, i.head.description⟩ : ParamTag)) = some p ↔
      (∀ c ∈ p.name, Field.isNameChar c = true) ∧
        Field.closeParen? (p.typeName ++ ")".toList) = some (p.typeName, []) := by
  obtain ⟨rest, hline, hfirst⟩ := h.entry.exists_headLine
  rw [Entry.read, Option.map_map, Option.map_eq_some_iff]
  constructor
  · rintro ⟨head, hhead, heq⟩
    have hname : head.name = p.name := congrArg ParamTag.name heq
    have htype : head.typeName = p.typeName := congrArg ParamTag.typeName heq
    obtain ⟨-, hchars, -⟩ := Field.paramHead?_spec hhead
    refine ⟨hname ▸ hchars, ?_⟩
    by_cases ht : p.typeName = []
    · rw [ht]
      decide
    · have hentry : p.entry.head = p.name ++ " (".toList ++ p.typeName ++ "):".toList := by
        simp [ParamTag.entry, ht]
      rw [hline, hentry] at hhead
      exact Field.closeParen?_of_paramHead? hhead hname htype
  · rintro ⟨hchars, hclose⟩
    refine ⟨⟨p.name, p.typeName, p.entry.first⟩, ?_, ?_⟩
    · rw [hline, ← hfirst]
      by_cases ht : p.typeName = []
      · have hentry : p.entry.head = p.name ++ ":".toList := by simp [ParamTag.entry, ht]
        rw [hentry, ht, List.append_assoc]
        exact Field.paramHead?_untyped h.name_ne_nil hchars rest
      · have hentry : p.entry.head = p.name ++ " (".toList ++ p.typeName ++ "):".toList := by
          simp [ParamTag.entry, ht]
        rw [hentry]
        exact Field.paramHead?_typed h.name_ne_nil hchars h.typed.type_trimmed hclose rest
    · simp only [Function.comp, h.entry.appendLines_first]
      rfl

/-- The item of a parameter without a type and a description is its name and a colon. -/
theorem headLine_of_bare (htype : p.typeName = []) (hdesc : p.description = []) :
    p.entry.headLine = p.name ++ [':'] := by
  have hfirst : p.entry.first = [] := (Entry.of_description_eq_nil (e := p.entry) hdesc).1
  have hhead : p.entry.head = p.name ++ ":".toList := by simp [entry, htype]
  rw [Entry.headLine, hfirst, hhead]
  simp

/-- Only then is it a word of letters and a colon. -/
theorem bare_of_headLine (h : p.Normal) {word : Text} (hword : p.entry.headLine = word ++ [':'])
    (hletters : ∀ c ∈ word, Text.isBlank c = false → c.toLower.isLower = true) :
    p.typeName = [] ∧ p.description = [] ∧ word = p.name := by
  obtain ⟨rest, hentry, hrest⟩ := p.entry_head_eq
  have htype : p.typeName = [] := by
    by_contra ht
    obtain ⟨-, rfl⟩ := hrest.resolve_left fun hr => ht hr.1
    have hparen : '(' ∈ p.entry.headLine := by simp [Entry.headLine, hentry]
    rw [hword] at hparen
    exact absurd (hletters '(' (by simpa using hparen) (by decide)) (by decide)
  obtain ⟨-, rfl⟩ := hrest.resolve_right fun hr => hr.1 htype
  rw [List.append_nil] at hentry
  have hfirst : p.entry.first = [] := by
    by_contra hf
    -- the colon behind the name is not the last character, so it belongs to the word
    have hsame : p.name ++ ':' :: ' ' :: p.entry.first = word ++ [':'] := by
      rw [← hword, Entry.headLine, hentry]
      simp [hf]
    have hdrop := congrArg List.dropLast hsame
    rw [List.dropLast_concat, List.dropLast_append_of_ne_nil (by simp)] at hdrop
    have hcolon : ':' ∈ word := by simp [← hdrop]
    exact absurd (hletters ':' hcolon (by decide)) (by decide)
  rw [Entry.headLine, hentry] at hword
  exact ⟨htype, h.entry.first_spec.2.2.mp hfirst, by simpa [hfirst] using hword.symm⟩

/-- The first line of a parameter has a kind of its own exactly if it is a section word with its
colon. -/
theorem ownKind?_headLine_iff (h : p.Normal) (hchars : ∀ c ∈ p.name, Field.isNameChar c = true) :
    Line.ownKind? p.entry.headLine = none ↔
      ¬ (p.typeName = [] ∧ p.description = [] ∧ (Section.ofWord? p.name).isSome = true) := by
  have htrim := h.entry.trim_headLine
  have hhead : p.entry.headLine.head? ≠ some ':' := by
    obtain ⟨rest, hentry, -⟩ := p.entry_head_eq
    obtain ⟨c, name, hname⟩ := List.exists_cons_of_ne_nil h.name_ne_nil
    rw [Entry.headLine, hentry, hname]
    intro hc
    obtain rfl : c = ':' := by simpa using hc
    exact absurd (hchars ':' (hname ▸ List.mem_cons_self)) (by decide)
  have hfield : Line.fieldSection? p.entry.headLine = none :=
    Line.fieldSection?_eq_none (htrim.symm ▸ hhead)
  have hname : Text.trim p.name = p.name := Text.trim_eq_self_iff.mpr
    ⟨fun d hd => h.name_solid d (List.mem_of_head? hd),
      fun d hd => h.name_solid d (List.mem_of_getLast? hd)⟩
  constructor
  · rintro hnone ⟨htype, hdesc, hword⟩
    obtain ⟨k, hk⟩ := Option.isSome_iff_exists.mp hword
    have hheader : Line.colonHeader? p.entry.headLine = some k :=
      (Line.colonHeader?_eq_some_iff htrim hhead).mpr
        ⟨p.name, headLine_of_bare htype hdesc, hname.symm ▸ hk⟩
    simp [Line.ownKind?, h.entry.blank_headLine, hheader] at hnone
  · intro hbare
    cases hk : Line.colonHeader? p.entry.headLine with
    | none => simp [Line.ownKind?, h.entry.blank_headLine, hk, hfield]
    | some k =>
      obtain ⟨word, hword, hof⟩ := (Line.colonHeader?_eq_some_iff htrim hhead).mp hk
      obtain ⟨htype, hdesc, rfl⟩ := bare_of_headLine h hword
        fun c hc hsolid => Section.letter_of_ofWord?_trim hof hc hsolid
      rw [hname] at hof
      exact absurd ⟨htype, hdesc, by rw [hof]; rfl⟩ hbare

/-- Nothing in the item of a parameter opens a section or a field. -/
theorem quiet_lines_iff (h : p.Normal) (hchars : ∀ c ∈ p.name, Field.isNameChar c = true) :
    Line.Quiet p.entry.lines ↔
      ¬ (p.typeName = [] ∧ p.description = [] ∧ (Section.ofWord? p.name).isSome = true) ∧
        ∀ l ∈ Line.classify (p.description.splitOn '\n').tail, l.kind = .text := by
  rw [h.entry.quiet_lines_iff, ownKind?_headLine_iff h hchars]
  rfl

end ParamTag

/-! ## Return values and errors -/

namespace TypedTag

open Docstring

variable {t : TypedTag}

theorem Normal.entry (h : t.Normal) : t.entry.Normal := by
  refine ⟨?_, ?_, by simp [TypedTag.entry], h.description⟩
  · refine Text.trim_eq_self_iff.mpr ⟨fun d hd => ?_, fun d hd => ?_⟩
    · cases ht : t.typeName with
      | nil =>
        obtain rfl : ':' = d := by simpa [TypedTag.entry, ht] using hd
        decide
      | cons c cs =>
        obtain rfl : c = d := by simpa [TypedTag.entry, ht] using hd
        exact (Text.trim_eq_self_iff.mp h.type_trimmed).1 c (by rw [ht]; rfl)
    · obtain rfl : ':' = d := by simpa [TypedTag.entry] using hd
      decide
  · simpa [TypedTag.entry] using h.type_line

theorem Normal.exists_headLine (h : t.Normal) :
    ∃ rest, t.entry.headLine = t.typeName ++ ':' :: rest ∧ Text.trim rest = t.entry.first := by
  obtain ⟨rest, hline, hfirst⟩ := h.entry.exists_headLine
  exact ⟨rest, by rw [hline]; simp [TypedTag.entry], hfirst⟩

/-- An error is read back exactly if its type ends at its colon. -/
theorem read_entry_iff (h : t.Normal) :
    (t.entry.read Field.errorHead?).map
        (fun i => (⟨i.head.typeName, i.head.description⟩ : TypedTag)) = some t ↔
      Field.DelimitedType t.typeName := by
  obtain ⟨rest, hline, hfirst⟩ := h.exists_headLine
  rw [Entry.read, Option.map_map, Option.map_eq_some_iff, hline]
  constructor
  · rintro ⟨head, hhead, heq⟩
    exact Field.delimitedType_of_errorHead? hhead (congrArg TypedTag.typeName heq)
  · intro htype
    refine ⟨⟨[], t.typeName, t.entry.first⟩, ?_, ?_⟩
    · rw [Field.errorHead?_of_delimitedType htype, hfirst]
    · simp only [Function.comp, h.entry.appendLines_first]
      rfl

/-- Nothing in the item of a return value or an error opens a section or a field. -/
theorem quiet_lines_iff (h : t.Normal) :
    Line.Quiet t.entry.lines ↔ Line.ownKind? t.entry.headLine = none ∧
      ∀ l ∈ Line.classify (t.description.splitOn '\n').tail, l.kind = .text :=
  h.entry.quiet_lines_iff

end TypedTag

end ApiDocs
