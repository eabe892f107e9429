import ApiDocs.Proofs.Docstring.Dialects

/-!
# Unions of types

A type may be a union: alternatives with a bar between them, each of them one token that has blanks,
bars and colons inside its brackets only. Such a text always ends at the colon behind it. Whether it
reads as a type is decided part by part, and the parts lie between any two bars, also between
bars inside brackets: what stands behind such a bar is read as if the bracket were not open. So
a union reads as a type exactly if each part does by itself.

* `Field.Balanced`, `Field.Token`, `Field.union`: texts whose brackets match, alternatives, and
  unions of them.
* `Field.Token.declarable`: an alternative ends at the colon behind it.
* `Field.map_trim_splitOn_union`: the parts of a union are the parts of its alternatives.
* `Field.BarsApart`, `Field.looksLikeType_union_iff`: which unions read as a type.
* `Docstring.parse_union_type`: what is read of a line with a union in front of its colon.
-/

namespace ApiDocs

namespace Text

theorem map_trim_splitOn_append_space {sep : Char} (hsep : sep ≠ ' ') (s : Text) :
    ((s ++ [' ']).splitOn sep).map trim = (s.splitOn sep).map trim := by
  have hspace : sep ∉ [' '] := by simpa using hsep
  obtain ⟨before, last, hs, hsp⟩ := exists_splitOn_append s hspace
  rw [hs, hsp, List.map_append, List.map_append, List.map_singleton, List.map_singleton,
    trim_append_singleton_blank isBlank_space]

theorem map_trim_splitOn_cons_space {sep : Char} (hsep : sep ≠ ' ') (s : Text) :
    ((' ' :: s).splitOn sep).map trim = (s.splitOn sep).map trim := by
  obtain ⟨first, more, hs⟩ := List.exists_cons_of_ne_nil (List.splitOn_ne_nil sep s)
  have hne : (' ' == sep) = false := by simpa using hsep.symm
  rw [List.splitOn_cons_eq_if_modifyHead, hne, hs]
  simp [trim_cons_blank]

end Text

namespace Field

/-! ## Texts whose brackets match -/

def brackets : List (Char × Char) := [('(', ')'), ('[', ']'), ('\x7b', '\x7d')]

/-- Texts in which brackets of all kinds match. -/
inductive Balanced : Text → Prop
  | nil : Balanced []
  | char {c : Char} {rest : Text} (plain : isOpening c = false ∧ isClosing c = false)
    (more : Balanced rest) : Balanced (c :: rest)
  | nest {o c : Char} {inner rest : Text} (pair : (o, c) ∈ brackets) (inside : Balanced inner)
    (more : Balanced rest) : Balanced (o :: (inner ++ c :: rest))

/-- Whether a character may not stand outside the brackets of an alternative. -/
def isInner (c : Char) : Bool := Text.isBlank c || c == '|' || c == ':'

/-- Texts on one line in which brackets of all kinds match, and in which blanks, bars and colons
stand inside brackets only. -/
inductive Token : Text → Prop
  | nil : Token []
  | char {c : Char} {rest : Text} (plain : isOpening c = false ∧ isClosing c = false)
    (outer : isInner c = false) (more : Token rest) : Token (c :: rest)
  | nest {o c : Char} {inner rest : Text} (pair : (o, c) ∈ brackets) (inside : Balanced inner)
    (line : '\n' ∉ inner) (more : Token rest) : Token (o :: (inner ++ c :: rest))

theorem depthAfter_of_plain {c : Char} (h : isOpening c = false ∧ isClosing c = false)
    (depth : Nat) : depthAfter depth c = depth := by
  simp [depthAfter, h.1, h.2]

theorem depthAfter_of_pair {o c : Char} (h : (o, c) ∈ brackets) (depth : Nat) :
    depthAfter depth o = depth + 1 ∧ depthAfter (depth + 1) c = depth := by
  simp only [brackets, List.mem_cons, Prod.mk.injEq, List.not_mem_nil, or_false] at h
  rcases h with ⟨rfl, rfl⟩ | ⟨rfl, rfl⟩ | ⟨rfl, rfl⟩
  · exact ⟨rfl, rfl⟩
  · exact ⟨rfl, rfl⟩
  · exact ⟨rfl, rfl⟩

theorem isInner_of_pair {o c : Char} (h : (o, c) ∈ brackets) :
    isInner o = false ∧ isInner c = false := by
  simp only [brackets, List.mem_cons, Prod.mk.injEq, List.not_mem_nil, or_false] at h
  rcases h with ⟨rfl, rfl⟩ | ⟨rfl, rfl⟩ | ⟨rfl, rfl⟩
  · decide
  · decide
  · decide

section Nest

variable {p : Char → Bool} {depth : Nat} {o c : Char} {inner rest : Text}

theorem depthOver_nest (pair : (o, c) ∈ brackets)
    (hinner : depthOver (depth + 1) inner = depth + 1) :
    depthOver depth (o :: (inner ++ c :: rest)) = depthOver depth rest := by
  obtain ⟨ho, hc⟩ := depthAfter_of_pair pair depth
  rw [depthOver_cons, ho, depthOver_append, hinner, depthOver_cons, hc]

theorem avoids_nest (pair : (o, c) ∈ brackets) (hpo : p o = true → depth ≠ 0)
    (hinner : Avoids p (depth + 1) inner) (hdepth : depthOver (depth + 1) inner = depth + 1)
    (hrest : Avoids p depth rest) : Avoids p depth (o :: (inner ++ c :: rest)) := by
  obtain ⟨ho, hc⟩ := depthAfter_of_pair pair depth
  refine avoids_cons_iff.mpr ⟨fun h => hpo h.1 h.2, ?_⟩
  rw [ho]
  refine hinner.append ?_
  rw [hdepth]
  refine avoids_cons_iff.mpr ⟨by simp, ?_⟩
  rw [hc]
  exact hrest

end Nest

/-- A text whose brackets match leaves the depth as it is, and inside a bracket all of it is inside
a bracket. -/
theorem Balanced.spec {s : Text} (h : Balanced s) (p : Char → Bool) (depth : Nat) :
    Avoids p (depth + 1) s ∧ depthOver depth s = depth := by
  induction h generalizing depth with
  | nil => exact ⟨avoids_nil p _, rfl⟩
  | char plain more ih =>
    obtain ⟨havoids, hdepth⟩ := ih depth
    constructor
    · refine avoids_cons_iff.mpr ⟨by simp, ?_⟩
      rw [depthAfter_of_plain plain]
      exact havoids
    · rw [depthOver_cons, depthAfter_of_plain plain, hdepth]
  | nest pair inside more ihInner ihRest =>
    obtain ⟨hrest, hdepth⟩ := ihRest depth
    constructor
    · exact avoids_nest pair (by simp) (ihInner (depth + 1)).1 (ihInner (depth + 1 + 1)).2 hrest
    · rw [depthOver_nest pair (ihInner (depth + 1)).2, hdepth]

theorem balanced_of_plain {s : Text} (h : ∀ c ∈ s, isOpening c = false ∧ isClosing c = false) :
    Balanced s := by
  induction s with
  | nil => exact .nil
  | cons c s ih =>
    obtain ⟨hc, hs⟩ := List.forall_mem_cons.mp h
    exact .char hc (ih hs)

/-! ## Alternatives -/

namespace Token

variable {s t : Text}

theorem spec (h : Token s) : Avoids isInner 0 s ∧ depthOver 0 s = 0 ∧ '\n' ∉ s := by
  induction h with
  | nil => exact ⟨avoids_nil _ _, rfl, by simp⟩
  | char plain outer more ih =>
    obtain ⟨havoids, hdepth, hline⟩ := ih
    refine ⟨avoids_cons_iff.mpr ⟨by simp [outer], ?_⟩, ?_, ?_⟩
    · rw [depthAfter_of_plain plain]
      exact havoids
    · rw [depthOver_cons, depthAfter_of_plain plain, hdepth]
    · intro hmem
      rcases List.mem_cons.mp hmem with rfl | hmem
      · exact absurd outer (by decide)
      · exact hline hmem
  | nest pair inside line more ih =>
    obtain ⟨havoids, hdepth, hline⟩ := ih
    obtain ⟨hinner, -⟩ := inside.spec isInner 0
    have hclosed := (inside.spec isInner 1).2
    obtain ⟨ho, hc⟩ := isInner_of_pair pair
    have hbreak : ∀ {x : Char}, isInner x = false → '\n' ≠ x := by
      rintro x hx rfl
      exact absurd hx (by decide)
    refine ⟨avoids_nest pair (by simp [ho]) hinner hclosed havoids, ?_, ?_⟩
    · rw [depthOver_nest pair hclosed, hdepth]
    · simp [hbreak ho, hbreak hc, line, hline]

theorem append (hs : Token s) (ht : Token t) : Token (s ++ t) := by
  induction hs with
  | nil => exact ht
  | char plain outer more ih => exact .char plain outer ih
  | nest pair inside line more ih =>
    rw [List.cons_append, List.append_assoc, List.cons_append]
    exact .nest pair inside line ih

theorem of_outer (h : ∀ c ∈ s, isOpening c = false ∧ isClosing c = false ∧ isInner c = false) :
    Token s := by
  induction s with
  | nil => exact .nil
  | cons c s ih =>
    obtain ⟨⟨hopen, hclose, hc⟩, hs⟩ := List.forall_mem_cons.mp h
    exact .char ⟨hopen, hclose⟩ hc (ih hs)

theorem avoids_blank (h : Token s) : Avoids Text.isBlank 0 s :=
  h.spec.1.mono fun c hc => by simp [isInner, hc]

theorem trim_eq (h : Token s) : Text.trim s = s := by
  have hblank := h.avoids_blank
  refine Text.trim_eq_self_iff.mpr ⟨fun c hc => ?_, fun c hc => ?_⟩
  · by_contra hb
    obtain ⟨more, rfl⟩ := List.head?_eq_some_iff.mp hc
    exact hblank [] c more rfl (by simpa using hb) rfl
  · by_contra hb
    obtain ⟨front, rfl⟩ := List.getLast?_eq_some_iff.mp hc
    have hc : Text.isBlank c = true := by simpa using hb
    have hplain : isOpening c = false ∧ isClosing c = false :=
      Text.forall_isBlank (P := fun c => isOpening c = false ∧ isClosing c = false) (by decide) hc
    -- a blank at the end stands at the depth at which the text ends
    have hdepth := h.spec.2.1
    rw [depthOver_append, depthOver_cons, depthAfter_of_plain hplain] at hdepth
    exact hblank front c [] rfl hc hdepth

theorem declarable (h : Token s) (hne : s ≠ []) : Declarable s := by
  obtain ⟨havoids, hclosed, hline⟩ := h.spec
  refine ⟨⟨hne, h.trim_eq, hline⟩, colonFree_iff.mpr ?_, hclosed⟩
  exact havoids.mono fun c hc => by simp_all [isInner]

end Token

/-! ## Unions -/

/-- Alternatives with a bar between two. -/
def union (alternatives : List Text) : Text := " | ".toList.intercalate alternatives

theorem union_cons_cons (a b : Text) (more : List Text) :
    union (a :: b :: more) = a ++ [' '] ++ '|' :: ' ' :: union (b :: more) := by
  rw [union, List.intercalate_cons_cons]
  simp [union]

theorem declarable_union {alternatives : List Text} (hne : alternatives ≠ [])
    (h : ∀ a ∈ alternatives, Token a ∧ a ≠ []) : Declarable (union alternatives) := by
  obtain ⟨a, more, rfl⟩ := List.exists_cons_of_ne_nil hne
  induction more generalizing a with
  | nil =>
    obtain ⟨ha, hne⟩ := h a List.mem_cons_self
    simpa [union] using ha.declarable hne
  | cons b more ih =>
    obtain ⟨⟨ha, hne⟩, hrest⟩ := List.forall_mem_cons.mp h
    have hbar : Declarable "|".toList := declarable_of_smooth (by simp) (by simp [isSmooth,
      isOpening, isClosing]) (by simp [Text.isBlank])
    have hunion := (ha.declarable hne).spaced (hbar.spaced (ih b (by simp) hrest))
    rw [union_cons_cons]
    simpa using hunion

/-- Between its bars, a union has the parts of its alternatives. -/
theorem map_trim_splitOn_union {alternatives : List Text} (hne : alternatives ≠ []) :
    ((union alternatives).splitOn '|').map Text.trim =
      alternatives.flatMap fun a => (a.splitOn '|').map Text.trim := by
  obtain ⟨a, more, rfl⟩ := List.exists_cons_of_ne_nil hne
  induction more generalizing a with
  | nil => simp [union]
  | cons b more ih =>
    rw [union_cons_cons, List.splitOn_append_cons_self, List.map_append, List.flatMap_cons,
      Text.map_trim_splitOn_append_space (by decide),
      Text.map_trim_splitOn_cons_space (by decide), ih b (by simp)]

/-! ## Unions that read as types -/

/-- Whether a text reads as one token: it is not blank, and but for its ends no blank stands outside
the brackets that it opens itself. -/
def ReadsAsToken (s : Text) : Prop := Text.blank s = false ∧ Avoids Text.isBlank 0 (Text.trim s)

/-- Whether each part between two bars reads as one token. -/
def BarsApart (s : Text) : Prop := ∀ part ∈ s.splitOn '|', ReadsAsToken part

theorem solid_iff {depth : Nat} {s : Text} :
    solid depth s = true ↔ Avoids Text.isBlank depth s := by
  induction s generalizing depth with
  | nil => simp [solid, avoids_nil]
  | cons c s ih =>
    have hfirst : (!(Text.isBlank c && depth == 0)) = true ↔
        ¬ (Text.isBlank c = true ∧ depth = 0) := by
      cases Text.isBlank c <;> simp
    rw [solid, Bool.and_eq_true, ih, avoids_cons_iff, hfirst]

theorem readsAsToken_trim {s : Text} : ReadsAsToken (Text.trim s) ↔ ReadsAsToken s := by
  simp [ReadsAsToken]

theorem looksLikeType_iff {s : Text} (htrim : Text.trim s = s) (hne : s ≠ []) :
    looksLikeType s = true ↔ s.getLast? ≠ some '.' ∧ BarsApart s := by
  simp only [looksLikeType, htrim, Bool.and_eq_true, Bool.not_eq_true', List.isEmpty_eq_false_iff,
    bne_iff_ne, List.all_eq_true, solid_iff, BarsApart, ReadsAsToken, ne_eq, Text.trim_eq_nil_iff,
    Bool.not_eq_true, hne, not_false_eq_true, true_and]

/-- A union reads as a type exactly if each part between two bars does, of any of its alternatives.
-/
theorem looksLikeType_union_iff {alternatives : List Text} (hne : alternatives ≠ [])
    (h : ∀ a ∈ alternatives, Token a ∧ a ≠ []) (hdot : (union alternatives).getLast? ≠ some '.') :
    looksLikeType (union alternatives) = true ↔ ∀ a ∈ alternatives, BarsApart a := by
  have hunion := declarable_union hne h
  have htrims : ∀ s : Text, BarsApart s ↔ ∀ part ∈ (s.splitOn '|').map Text.trim,
      ReadsAsToken part := by
    intro s
    rw [List.forall_mem_map]
    exact forall₂_congr fun part _ => readsAsToken_trim.symm
  rw [looksLikeType_iff hunion.trimmed hunion.ne_nil, htrims, map_trim_splitOn_union hne,
    List.forall_mem_flatMap]
  simp only [← htrims, hdot, ne_eq, not_false_eq_true, true_and]

/-- An alternative without a bar in its brackets reads as one token. -/
theorem Token.barsApart {s : Text} (h : Token s) (hne : s ≠ []) (hbar : '|' ∉ s) : BarsApart s := by
  intro part hpart
  rw [List.splitOn_eq_singleton hbar, List.mem_singleton] at hpart
  rw [hpart, ReadsAsToken, h.trim_eq]
  exact ⟨Text.blank_eq_false_of_trimmed h.trim_eq hne, h.avoids_blank⟩

end Field

/-! ## A line with a type in front of its colon -/

/-- A line with something in front of its colon and something behind it opens nothing. -/
theorem Line.inert_of_colon {front rest : Text} (hfront : Text.TrimmedLine front)
    (hhead : front.head? ≠ some ':') (hrest : Text.TrimmedLine rest) :
    Inert (front ++ ": ".toList ++ rest) := by
  have hline := hfront.append hrest (by simp : '\n' ∉ ": ".toList)
  have hhead' : (front ++ ": ".toList ++ rest).head? ≠ some ':' := by
    rw [List.append_assoc, List.head?_append_of_ne_nil _ hfront.ne_nil]
    exact hhead
  have hheader : colonHeader? (front ++ ": ".toList ++ rest) = none := by
    cases hk : colonHeader? (front ++ ": ".toList ++ rest) with
    | none => rfl
    | some k =>
      -- the colon behind `front` is not the last one, so it belongs to the word
      obtain ⟨word, hsame, hword⟩ := (colonHeader?_eq_some_iff hline.trimmed hhead').mp hk
      rcases List.eq_nil_or_concat rest with rfl | ⟨more, c, rfl⟩
      · exact absurd rfl hrest.ne_nil
      · rw [List.concat_eq_append, ← List.append_assoc] at hsame
        have hcolon : ':' ∈ word := by simp [← (List.append_inj' hsame rfl).1]
        exact absurd (Section.letter_of_ofWord?_trim hword hcolon (by decide)) (by decide)
  have hfield := fieldSection?_eq_none (hline.trimmed.symm ▸ hhead')
  constructor
  · simp only [ownKind?, hline.blank_eq_false, hheader, hfield]
    rfl
  · rw [hline.trimmed]
    exact Section.ofWord?_eq_none_of_mem (c := ':') (by simp) (by decide)

theorem Block.gather_of_inert_line {k : Section} {header line : Text}
    (hheader : Line.ownKind? header = some (.header k)) (hsplit : Line.split header = [header])
    (hline : Text.TrimmedLine line) (hinert : Line.Inert line) :
    gather (Line.ofText (header ++ "\n    ".toList ++ line)) =
      ([], [body k [⟨"    ".toList ++ line, .text⟩]]) := by
  obtain ⟨htrim, -, hbelow⟩ := hline.replicate_spec 4
  have hpad : List.replicate 4 ' ' = "    ".toList := by decide
  have hsame : header ++ "\n    ".toList ++ line = header ++ '\n' :: ("    ".toList ++ line) := by
    simp
  rw [hpad] at htrim hbelow
  have hlines : ∀ s ∈ ["    ".toList ++ line], Line.Inert s := by
    intro s hs
    rw [List.mem_singleton.mp hs]
    exact .of_trim (htrim.symm ▸ hinert)
  rw [hsame, Line.ofText, Line.split_append, hsplit, hbelow, List.singleton_append,
    Line.classify_cons_of_ownKind? hheader, Line.classify_of_inert hlines]
  exact gather_header_text k header ["    ".toList ++ line]

namespace Docstring

open ApiDocs.Field

section TypedLine

variable {t d : Text}

theorem trimmedLine_of_typed (ht : Declarable t) (hd : Text.TrimmedLine d) :
    Text.TrimmedLine (t ++ ": ".toList ++ d) :=
  ht.toTrimmedLine.append hd (by simp)

theorem split?_of_typed (ht : Declarable t) (hd : Text.TrimmedLine d) :
    split? (t ++ ": ".toList ++ d) = some (t, d) := by
  have hsame : t ++ ": ".toList ++ d = t ++ ':' :: ' ' :: d := by simp
  rw [hsame, ht.split?, Text.trim_cons_blank Text.isBlank_space, hd.trimmed]

theorem gather_of_typed_line {k : Section} (header : Text) (ht : Declarable t)
    (hd : Text.TrimmedLine d) (hheader : Line.ownKind? header = some (.header k))
    (hsplit : Line.split header = [header]) :
    ∃ l : Line, l.isBlank = false ∧ l.trimmed = t ++ ": ".toList ++ d ∧
      Block.gather (Line.ofText (header ++ "\n    ".toList ++ (t ++ ": ".toList ++ d))) =
        ([], [.body k [l]]) := by
  have hline := trimmedLine_of_typed ht hd
  refine ⟨⟨"    ".toList ++ (t ++ ": ".toList ++ d), .text⟩, rfl, ?_, ?_⟩
  · rw [Line.trimmed, Text.trim_blank_append (by decide), hline.trimmed]
  · exact Block.gather_of_inert_line hheader hsplit hline
      (Line.inert_of_colon ht.toTrimmedLine ht.head?_ne_colon hd)

/-- What stands in front of a colon is the type of the return value if it reads as one; otherwise
the whole line describes the return value. -/
theorem returns_of_typed_line (ht : Declarable t) (hd : Text.TrimmedLine d) :
    (parse ("Returns:\n    ".toList ++ t ++ ": ".toList ++ d)).returns =
      some (if looksLikeType t then ⟨t, d⟩ else ⟨[], t ++ ": ".toList ++ d⟩) := by
  obtain ⟨l, hblank, htrim, hgather⟩ :=
    gather_of_typed_line (k := .returns) "Returns:".toList ht hd (by decide) (by decide)
  have hsame : "Returns:\n    ".toList ++ t ++ ": ".toList ++ d =
      "Returns:".toList ++ "\n    ".toList ++ (t ++ ": ".toList ++ d) := by simp
  have hhead : Item.returned? [l] = some (Item.returnedHead l.trimmed) := by
    simp [Item.returned?, hblank, Item.appendLines]
  have hne : t.isEmpty = false := by simpa using ht.ne_nil
  simp only [parse, hsame, hgather, List.findSome?_cons, Block.returned?, hhead, htrim,
    Item.returnedHead, split?_of_typed ht hd, hne, Bool.false_or]

/-- What stands in front of a colon is the type of an error if it reads as one; otherwise the line
gives no error. -/
theorem raises_of_typed_line (ht : Declarable t) (hd : Text.TrimmedLine d) :
    (parse ("Raises:\n    ".toList ++ t ++ ": ".toList ++ d)).raises =
      if looksLikeType t then [⟨t, d⟩] else [] := by
  obtain ⟨l, hblank, htrim, hgather⟩ :=
    gather_of_typed_line (k := .raises) "Raises:".toList ht hd (by decide) (by decide)
  have hsame : "Raises:\n    ".toList ++ t ++ ": ".toList ++ d =
      "Raises:".toList ++ "\n    ".toList ++ (t ++ ": ".toList ++ d) := by simp
  have hne : t.isEmpty = false := by simpa using ht.ne_nil
  have hhead : errorHead? l.trimmed = if looksLikeType t then some ⟨[], t, d⟩ else none := by
    rw [htrim]
    simp only [errorHead?, split?_of_typed ht hd, hne, Bool.false_or]
  have hitems : Item.errors [l] = if looksLikeType t then [⟨t, d⟩] else [] := by
    cases hlooks : looksLikeType t <;>
      simp [Item.errors, Item.collect, Item.collectLines, Item.collectFrom, hblank, hhead, hlooks]
  simp only [parse, hsame, hgather, List.flatMap_cons, Block.errors, hitems, List.flatMap_nil,
    List.append_nil]

end TypedLine

/-- **Which unions read as types.** Let a union of alternatives not end in a full stop. It reads as
a type exactly if each part between two of its bars reads as one token; so it does if no bar stands
inside brackets. In front of a colon, such a union is the type of the return value or of the error,
and the text behind the colon is its description. Any other union is no type there: the whole line
is the description of the return value, and there is no error. -/
theorem parse_union_type {alternatives : List Text} (hne : alternatives ≠ [])
    (h : ∀ a ∈ alternatives, Token a ∧ a ≠ []) (hdot : (union alternatives).getLast? ≠ some '.') :
    (looksLikeType (union alternatives) = true ↔ ∀ a ∈ alternatives, BarsApart a) ∧
      ((∀ a ∈ alternatives, '|' ∉ a) → ∀ a ∈ alternatives, BarsApart a) ∧
      ∀ d, Text.TrimmedLine d →
        ((∀ a ∈ alternatives, BarsApart a) →
          (parse ("Returns:\n    ".toList ++ union alternatives ++ ": ".toList ++ d)).returns =
              some ⟨union alternatives, d⟩ ∧
            (parse ("Raises:\n    ".toList ++ union alternatives ++ ": ".toList ++ d)).raises =
              [⟨union alternatives, d⟩]) ∧
        (¬ (∀ a ∈ alternatives, BarsApart a) →
          (parse ("Returns:\n    ".toList ++ union alternatives ++ ": ".toList ++ d)).returns =
              some ⟨[], union alternatives ++ ": ".toList ++ d⟩ ∧
            (parse ("Raises:\n    ".toList ++ union alternatives ++ ": ".toList ++ d)).raises =
              []) := by
  have hiff := looksLikeType_union_iff hne h hdot
  have hunion := declarable_union hne h
  refine ⟨hiff, ?_, ?_⟩
  · intro hbar a ha
    exact (h a ha).1.barsApart (h a ha).2 (hbar a ha)
  · intro d hd
    rw [returns_of_typed_line hunion hd, raises_of_typed_line hunion hd]
    constructor
    · intro happart
      simp [hiff.mpr happart]
    · intro hnot
      have hlooks : looksLikeType (union alternatives) = false := by
        rw [Bool.eq_false_iff, ne_eq, hiff]
        exact hnot
      simp [hlooks]

theorem token_dict (inner : Text)
    (h : ∀ c ∈ inner, isOpening c = false ∧ isClosing c = false ∧ c ≠ '\n') :
    Token ("dict[".toList ++ inner ++ "]".toList) := by
  have hname : Token "dict".toList :=
    .of_outer (by simp [isOpening, isClosing, isInner, Text.isBlank])
  have hinner : Balanced inner := balanced_of_plain fun c hc => ⟨(h c hc).1, (h c hc).2.1⟩
  have hline : '\n' ∉ inner := fun hmem => (h _ hmem).2.2 rfl
  have hnest : Token ('[' :: (inner ++ ']' :: [])) := .nest (by simp [brackets]) hinner hline .nil
  simpa using hname.append hnest

/-- A bar inside brackets with nothing but one name behind it, and a section word as a type. -/
theorem parse_union_type_optional :
    (parse "Returns:\n    dict[str, int | None] | raises: the table".toList).returns =
        some ⟨"dict[str, int | None] | raises".toList, "the table".toList⟩ ∧
      (parse "Raises:\n    dict[str, int | None] | raises: the table".toList).raises =
        [⟨"dict[str, int | None] | raises".toList, "the table".toList⟩] := by
  have hdict : Token "dict[str, int | None]".toList :=
    token_dict "str, int | None".toList (by simp [isOpening, isClosing])
  have hword : Token "raises".toList :=
    .of_outer (by simp [isOpening, isClosing, isInner, Text.isBlank])
  have halternatives : ∀ a ∈ ["dict[str, int | None]".toList, "raises".toList],
      Token a ∧ a ≠ [] := by
    simp only [List.forall_mem_cons]
    exact ⟨⟨hdict, by simp⟩, ⟨hword, by simp⟩, by simp⟩
  obtain ⟨hiff, -, hparse⟩ := parse_union_type (by simp) halternatives (by decide)
  exact (hparse "the table".toList ⟨by decide, by decide, by decide⟩).1 (hiff.mp (by decide))

/-- Behind the bar inside these brackets stand two names with a blank between them, so the whole
is not read as a type. -/
theorem parse_union_type_lost :
    Token "dict[int | None, str]".toList ∧
      looksLikeType "dict[int | None, str]".toList = false ∧
      (parse "Returns:\n    dict[int | None, str]: the table".toList).returns =
        some ⟨[], "dict[int | None, str]: the table".toList⟩ ∧
      (parse "Raises:\n    dict[int | None, str]: the table".toList).raises = [] := by
  refine ⟨?_, by decide, by decide, by decide⟩
  exact token_dict "int | None, str".toList (by simp [isOpening, isClosing])

end Docstring

end ApiDocs
