import ApiDocs.Proofs.Docstring.Description
import ApiDocs.Proofs.Docstring.FieldDeclaration

/-!
# Types that can be written anywhere

A type may stand in parentheses, behind a colon, in front of one, or before the name of
a parameter. It is found again in each of these places if its round brackets match, if no colon
stands outside its brackets, and if it leaves no bracket open. These are conditions on the text of
the type, not on how it is cut.

* `Field.depthOver`, `Field.Avoids`, `Field.ColonFree`: bracket depth after a text, and texts
  without certain characters, such as a colon, outside brackets.
* `Field.cutAtColon?_append_of_colonFree`: such a text is passed over.
* `Field.Declarable`, `Field.Declarable.split?`: texts that are found again before a colon.
* `Field.StaysOpen`, `Field.cutAtParen?_append_of_staysOpen`: texts that close no round bracket that
  is open before them.
* `Field.PlainType`, `Field.PlainType.closeParen?`: types that can be written anywhere.
* `Line.ownKind?_of_colon`, `Line.ownKind?_of_keyword`: lines with such a text before a colon.
* `Block.declaration?_of_keyword`: what a field with such a text declares.
-/

namespace ApiDocs

namespace Text

/-- Lines that neither are empty nor have blanks at their ends. -/
structure TrimmedLine (s : Text) : Prop where
  ne_nil : s ≠ []
  trimmed : trim s = s
  line : '\n' ∉ s

theorem TrimmedLine.blank_eq_false {s : Text} (h : TrimmedLine s) : blank s = false :=
  blank_eq_false_of_trimmed h.trimmed h.ne_nil

theorem TrimmedLine.append {s t : Text} (hs : TrimmedLine s) (ht : TrimmedLine t) {mid : Text}
    (hmid : '\n' ∉ mid) : TrimmedLine (s ++ mid ++ t) := by
  refine ⟨?_, trim_append_append hs.trimmed ht.trimmed hs.ne_nil ht.ne_nil mid, ?_⟩
  · simp [hs.ne_nil]
  · simp [hs.line, hmid, ht.line]

end Text

namespace Field

/-! ## Colons outside brackets -/

/-- Bracket depth after a text that starts at `depth`. -/
def depthOver (depth : Nat) (s : Text) : Nat := s.foldl depthAfter depth

/-- No character that satisfies `p` stands outside brackets, when the text starts at `depth`. -/
def Avoids (p : Char → Bool) (depth : Nat) (s : Text) : Prop :=
  ∀ u c v, s = u ++ c :: v → p c = true → depthOver depth u ≠ 0

/-- No colon stands outside brackets, when the text starts at `depth`. -/
def ColonFree (depth : Nat) (s : Text) : Prop :=
  ∀ u v, s = u ++ ':' :: v → depthOver depth u ≠ 0

theorem depthOver_append (depth : Nat) (s t : Text) :
    depthOver depth (s ++ t) = depthOver (depthOver depth s) t :=
  List.foldl_append

theorem depthOver_cons (depth : Nat) (c : Char) (s : Text) :
    depthOver depth (c :: s) = depthOver (depthAfter depth c) s := rfl

theorem avoids_nil (p : Char → Bool) (depth : Nat) : Avoids p depth [] := by
  intro u c v h
  simp at h

theorem avoids_cons_iff {p : Char → Bool} {depth : Nat} {c : Char} {s : Text} :
    Avoids p depth (c :: s) ↔
      ¬ (p c = true ∧ depth = 0) ∧ Avoids p (depthAfter depth c) s := by
  constructor
  · intro h
    refine ⟨?_, fun u d v hs => ?_⟩
    · rintro ⟨hc, rfl⟩
      exact h [] c s rfl hc rfl
    · exact h (c :: u) d v (by rw [hs, List.cons_append])
  · rintro ⟨hc, hs⟩ u d v heq hd
    cases u with
    | nil =>
      obtain ⟨rfl, -⟩ := List.cons.inj heq
      exact fun hdepth => hc ⟨hd, hdepth⟩
    | cons x u =>
      obtain ⟨rfl, rfl⟩ := List.cons.inj heq
      exact hs u d v rfl hd

theorem Avoids.append {p : Char → Bool} {depth : Nat} {s t : Text} (hs : Avoids p depth s)
    (ht : Avoids p (depthOver depth s) t) : Avoids p depth (s ++ t) := by
  induction s generalizing depth with
  | nil => exact ht
  | cons c s ih =>
    obtain ⟨hc, hrest⟩ := avoids_cons_iff.mp hs
    exact avoids_cons_iff.mpr ⟨hc, ih hrest ht⟩

theorem Avoids.mono {p q : Char → Bool} {depth : Nat} {s : Text} (h : Avoids p depth s)
    (hpq : ∀ c, q c = true → p c = true) : Avoids q depth s :=
  fun u c v heq hc => h u c v heq (hpq c hc)

theorem colonFree_iff {depth : Nat} {s : Text} :
    ColonFree depth s ↔ Avoids (· == ':') depth s := by
  constructor
  · intro h u c v heq hc
    obtain rfl : c = ':' := by simpa using hc
    exact h u v heq
  · intro h u v heq
    exact h u ':' v heq rfl

theorem colonFree_cons_iff {depth : Nat} {c : Char} {s : Text} :
    ColonFree depth (c :: s) ↔ ¬ (c = ':' ∧ depth = 0) ∧ ColonFree (depthAfter depth c) s := by
  rw [colonFree_iff, colonFree_iff, avoids_cons_iff, beq_iff_eq]

instance decidableColonFree : (depth : Nat) → (s : Text) → Decidable (ColonFree depth s)
  | _, [] => isTrue fun u v h => by simp at h
  | depth, c :: s =>
    have := decidableColonFree (depthAfter depth c) s
    decidable_of_iff _ colonFree_cons_iff.symm

theorem ColonFree.append {depth : Nat} {s t : Text} (hs : ColonFree depth s)
    (ht : ColonFree (depthOver depth s) t) : ColonFree depth (s ++ t) :=
  colonFree_iff.mpr ((colonFree_iff.mp hs).append (colonFree_iff.mp ht))

/-- A text without a colon outside brackets is passed over. -/
theorem cutAtColon?_append_of_colonFree {depth : Nat} {s : Text} (h : ColonFree depth s)
    (t : Text) :
    cutAtColon? depth (s ++ t) =
      (cutAtColon? (depthOver depth s) t).map fun x => (s ++ x.1, x.2) := by
  induction s generalizing depth with
  | nil => simp [depthOver]
  | cons c s ih =>
    obtain ⟨hc, hs⟩ := colonFree_cons_iff.mp h
    have hstep : (c == ':' && depth == 0) = false := by
      simpa using hc
    rw [List.cons_append, cutAtColon?, hstep, if_neg (by simp), ih hs, Option.map_map]
    rfl

theorem split?_of_colonFree {s : Text} (h : ColonFree 0 s) (hclosed : depthOver 0 s = 0)
    (rest : Text) : split? (s ++ ':' :: rest) = some (Text.trim s, Text.trim rest) := by
  rw [split?, cutAtColon?_append_of_colonFree h, hclosed]
  simp [cutAtColon?]

theorem cutAtColon?_eq_none_of_colonFree {depth : Nat} {s : Text} (h : ColonFree depth s) :
    cutAtColon? depth s = none := by
  have hcut := cutAtColon?_append_of_colonFree h []
  rw [List.append_nil] at hcut
  rw [hcut]
  rfl

theorem split?_eq_none_of_colonFree {s : Text} (h : ColonFree 0 s) : split? s = none := by
  rw [split?, cutAtColon?_eq_none_of_colonFree h]
  rfl

/-! ## Characters that no cut sees -/

/-- Whether a character is neither a bracket nor a colon. -/
def isSmooth (c : Char) : Bool := !isOpening c && !isClosing c && c != ':'

theorem colonFree_of_smooth {s : Text} (h : ∀ c ∈ s, isSmooth c = true) (depth : Nat) :
    ColonFree depth s ∧ depthOver depth s = depth := by
  induction s with
  | nil => exact ⟨by simp [ColonFree], rfl⟩
  | cons c s ih =>
    obtain ⟨hfree, hdepth⟩ := ih fun d hd => h d (List.mem_cons_of_mem _ hd)
    have hc := h c List.mem_cons_self
    simp only [isSmooth, Bool.and_eq_true, Bool.not_eq_true', bne_iff_ne, ne_eq] at hc
    have hsame : depthAfter depth c = depth := by simp [depthAfter, hc.1.1, hc.1.2]
    refine ⟨colonFree_cons_iff.mpr ⟨fun hcolon => hc.2 hcolon.1, hsame.symm ▸ hfree⟩, ?_⟩
    rw [depthOver, List.foldl_cons, hsame]
    exact hdepth

theorem isSmooth_of_isNameChar {c : Char} (h : isNameChar c = true) : isSmooth c = true := by
  by_contra hc
  simp only [isSmooth, isOpening, isClosing, Bool.and_eq_true, Bool.not_eq_true', bne_iff_ne,
    ne_eq, Bool.or_eq_false_iff, beq_eq_false_iff_ne, not_and_or, not_not] at hc
  rcases hc with ((⟨rfl | rfl⟩ | rfl) | ((rfl | rfl) | rfl)) | rfl <;> exact absurd h (by decide)

/-! ## Texts before a colon -/

/-- Texts that can stand before the colon of a declaration: trimmed lines in which no colon stands
outside brackets and no bracket is left open. -/
structure Declarable (s : Text) : Prop extends Text.TrimmedLine s where
  colonFree : ColonFree 0 s
  closed : depthOver 0 s = 0

theorem declarable_of_smooth {s : Text} (hne : s ≠ []) (hsmooth : ∀ c ∈ s, isSmooth c = true)
    (hsolid : ∀ c ∈ s, Text.isBlank c = false) : Declarable s := by
  obtain ⟨hfree, hclosed⟩ := colonFree_of_smooth hsmooth 0
  refine ⟨⟨hne, Text.trim_of_forall_not_blank hsolid, ?_⟩, hfree, hclosed⟩
  exact fun hnl => absurd (hsolid _ hnl) (by decide)

theorem declarable_of_isNameChar {name : Text} (hne : name ≠ [])
    (h : ∀ c ∈ name, isNameChar c = true) : Declarable name :=
  declarable_of_smooth hne (fun c hc => isSmooth_of_isNameChar (h c hc))
    fun c hc => not_isBlank_of_isNameChar (h c hc)

namespace Declarable

variable {s t : Text}

theorem spaced (hs : Declarable s) (ht : Declarable t) : Declarable (s ++ ' ' :: t) := by
  have hspace : isSmooth ' ' = true := by decide
  obtain ⟨hfree, hdepth⟩ := colonFree_of_smooth (s := [' ']) (by simpa using hspace) 0
  have hsame : s ++ ' ' :: t = s ++ [' '] ++ t := by simp
  have hends : depthOver 0 (s ++ [' ']) = 0 := by rw [depthOver_append, hs.closed, hdepth]
  rw [hsame]
  refine ⟨hs.toTrimmedLine.append ht.toTrimmedLine (by simp), ?_, ?_⟩
  · exact (hs.colonFree.append (hs.closed.symm ▸ hfree)).append (hends.symm ▸ ht.colonFree)
  · rw [depthOver_append, hends, ht.closed]

theorem split? (h : Declarable s) (rest : Text) :
    Field.split? (s ++ ':' :: rest) = some (s, Text.trim rest) := by
  rw [split?_of_colonFree h.colonFree h.closed, h.trimmed]

theorem head?_ne_colon (h : Declarable s) : s.head? ≠ some ':' := by
  intro hhead
  obtain ⟨t, rfl⟩ := List.head?_eq_some_iff.mp hhead
  exact h.colonFree [] t rfl rfl

theorem getLast?_ne_colon (h : Declarable s) : s.getLast? ≠ some ':' := by
  intro hlast
  obtain ⟨t, rfl⟩ := List.getLast?_eq_some_iff.mp hlast
  -- a colon at the end stands at the depth at which the text ends
  have hdepth := h.closed
  rw [depthOver_append] at hdepth
  exact h.colonFree t [] rfl hdepth

end Declarable

/-! ## Plain types -/

/-- Types that can be written anywhere: declarable texts in which round brackets match. -/
structure PlainType (t : Text) : Prop extends Declarable t where
  parens : ∀ u ∈ t.inits, u.count ')' ≤ u.count '('
  parens_closed : t.count ')' = t.count '('

/-- In a text, the round brackets of which `depth + 1` are open before it are never all closed. -/
def StaysOpen (depth : Nat) (s : Text) : Prop :=
  ∀ u, u <+: s → u.count ')' ≤ depth + u.count '('

theorem count_cons_eq (x c : Char) (u : Text) : (c :: u).count x = [c].count x + u.count x := by
  rw [← List.count_append, List.singleton_append]

/-- One character of a text that stays open moves from the counts of the text into the depth. -/
theorem staysOpen_cons_iff {depth d : Nat} {c : Char} {s : Text}
    (hd : d + [c].count ')' = depth + [c].count '(') :
    StaysOpen depth (c :: s) ↔ StaysOpen d s := by
  constructor
  · intro h u hu
    have hstep := h (c :: u) (List.cons_prefix_cons.mpr ⟨rfl, hu⟩)
    rw [count_cons_eq ')' c u, count_cons_eq '(' c u] at hstep
    omega
  · intro h u hu
    rcases List.prefix_cons_iff.mp hu with rfl | ⟨w, rfl, hw⟩
    · simp
    · have hrest := h w hw
      rw [count_cons_eq ')' c w, count_cons_eq '(' c w]
      omega

/-- The scan passes over a character that leaves a bracket open, and keeps an exact depth. -/
theorem cutAtParen?_cons {depth d : Nat} {c : Char}
    (hd : d + [c].count ')' = depth + [c].count '(') (s : Text) :
    cutAtParen? depth (c :: s) = (cutAtParen? d s).map fun x => (c :: x.1, x.2) := by
  by_cases hclose : c = ')'
  · subst hclose
    obtain rfl : depth = d + 1 := by simpa using hd.symm
    rfl
  · by_cases hopen : c = '('
    · subst hopen
      obtain rfl : d = depth + 1 := by simpa using hd
      rfl
    · obtain rfl : d = depth := by simpa [hclose, hopen] using hd
      simp only [cutAtParen?, beq_iff_eq, hclose, hopen, if_false]

/-- The scan passes over a text that stays open, and keeps an exact depth. -/
theorem cutAtParen?_append_of_staysOpen {depth d : Nat} {u : Text} (h : StaysOpen depth u)
    (hd : d + u.count ')' = depth + u.count '(') (v : Text) :
    cutAtParen? depth (u ++ v) = (cutAtParen? d v).map fun x => (u ++ x.1, x.2) := by
  induction u generalizing depth with
  | nil =>
    obtain rfl : d = depth := by simpa using hd
    simp
  | cons c u ih =>
    have hfirst : [c].count ')' ≤ depth + [c].count '(' := h [c] (List.prefix_append [c] u)
    obtain ⟨e, he⟩ := Nat.exists_eq_add_of_le' hfirst
    have hrest : d + u.count ')' = e + u.count '(' := by
      rw [count_cons_eq ')' c u, count_cons_eq '(' c u] at hd
      omega
    rw [List.cons_append, cutAtParen?_cons he.symm, ih ((staysOpen_cons_iff he.symm).mp h) hrest,
      Option.map_map]
    rfl

/-- Where the round brackets of a text match, the next one closes what was open before. -/
theorem cutAtParen?_of_balanced {depth : Nat} {t : Text} (h : StaysOpen depth t)
    (hend : t.count ')' = depth + t.count '(') (rest : Text) :
    cutAtParen? depth (t ++ ')' :: rest) = some (t, rest) := by
  rw [cutAtParen?_append_of_staysOpen h (d := 0) (by rw [hend, Nat.zero_add])]
  simp [cutAtParen?]

namespace PlainType

variable {t : Text}

theorem closeParen? (h : PlainType t) : closeParen? (t ++ ")".toList) = some (t, []) :=
  cutAtParen?_of_balanced (by simpa [StaysOpen, List.mem_inits] using h.parens)
    (by simpa using h.parens_closed) []

theorem delimitedType (h : PlainType t) (hlooks : looksLikeType t = true) : DelimitedType t :=
  .inr ⟨hlooks, h.split? []⟩

theorem errorHead? (h : PlainType t) (hlooks : looksLikeType t = true) :
    errorHead? t = some ⟨[], t, []⟩ := by
  simp [Field.errorHead?, split?_eq_none_of_colonFree h.colonFree, hlooks]

end PlainType

theorem paramHead?_spaced {name typeName : Text} (hne : name ≠ [])
    (h : ∀ c ∈ name, isNameChar c = true) (htrim : Text.trim typeName = typeName) :
    paramHead? (name ++ " : ".toList ++ typeName) = some ⟨name, typeName, []⟩ := by
  have hsame : name ++ " : ".toList ++ typeName = name ++ ' ' :: ':' :: ' ' :: typeName := by simp
  obtain ⟨htake, hdrop⟩ := takeWhile_isNameChar h (c := ' ') (by decide) (':' :: ' ' :: typeName)
  have hstart : Text.trimStart (' ' :: ':' :: ' ' :: typeName) = ':' :: ' ' :: typeName := by
    rw [Text.trimStart_cons_blank (by decide), Text.trimStart_cons_of_not_blank (by decide)]
  rw [hsame]
  simp [paramHead?, htake, hdrop, hne, hstart, Text.trim_cons_blank, htrim]

end Field

/-! ## Words -/

namespace Text

theorem words_append {s : Text} (hs : ∀ c ∈ s, isBlank c = false) (hne : s ≠ []) {c : Char}
    (hc : isBlank c = true) (t : Text) : words (s ++ c :: t) = s :: words t := by
  rw [words, List.splitOnP_append_cons_of_forall_mem hs c hc, List.filter_cons,
    if_pos (by simpa using hne), words]

theorem words_ne_nil {s : Text} (htrim : trim s = s) (hne : s ≠ []) : words s ≠ [] := by
  obtain ⟨c, s, rfl⟩ := List.exists_cons_of_ne_nil hne
  obtain ⟨w, more, hwords⟩ :=
    words_cons_of_not_blank ((trim_eq_self_iff.mp htrim).1 c rfl) s
  simp [hwords]

end Text

/-! ## Lines with a colon -/

namespace Section

/-- What stands before the last colon of a line is no section word if what stands before the first
is none. -/
theorem ofWord?_of_append_colon {front rest word : Text} (h : ofWord? (Text.trim front) = none)
    (hsame : front ++ ':' :: rest = word ++ [':']) : ofWord? (Text.trim word) = none := by
  rcases List.eq_nil_or_concat rest with rfl | ⟨more, c, rfl⟩
  · rw [← List.append_cancel_right hsame]
    exact h
  · rw [List.concat_eq_append, ← List.cons_append, ← List.append_assoc] at hsame
    have hword : front ++ ':' :: more = word := (List.append_inj' hsame rfl).1
    cases hk : ofWord? (Text.trim word) with
    | none => rfl
    | some k =>
      have hcolon : ':' ∈ word := by simp [← hword]
      exact absurd (letter_of_ofWord?_trim hk hcolon (by decide)) (by decide)

end Section

namespace Line

/-- A line whose text before the first colon is no section word has no kind of its own. -/
theorem ownKind?_of_colon {front rest : Text} (hfront : Text.TrimmedLine front)
    (hhead : front.head? ≠ some ':') (hword : Section.ofWord? front = none)
    (htrim : Text.trim (front ++ ':' :: rest) = front ++ ':' :: rest) :
    ownKind? (front ++ ':' :: rest) = none := by
  have hhead' : (front ++ ':' :: rest).head? ≠ some ':' := by
    rw [List.head?_append_of_ne_nil _ hfront.ne_nil]
    exact hhead
  have hheader : colonHeader? (front ++ ':' :: rest) = none := by
    cases hk : colonHeader? (front ++ ':' :: rest) with
    | none => rfl
    | some k =>
      obtain ⟨word, hsame, hk⟩ := (colonHeader?_eq_some_iff htrim hhead').mp hk
      rw [Section.ofWord?_of_append_colon (hfront.trimmed.symm ▸ hword) hsame] at hk
      cases hk
  have hfield : fieldSection? (front ++ ':' :: rest) = none :=
    fieldSection?_eq_none (htrim.symm ▸ hhead')
  have hblank : Text.blank (front ++ ':' :: rest) = false := by
    rw [Text.blank_append, hfront.blank_eq_false, Bool.false_and]
  simp [ownKind?, hblank, hheader, hfield]

/-! ## Fields -/

/-- Keywords of fields that declare something of section `k`. -/
structure Keyword (word : Text) (k : Section) : Prop where
  declarable : Field.Declarable word
  solid : ∀ c ∈ word, Text.isBlank c = false
  declares : ∀ more, more ≠ [] → sectionOfKeyword? (word :: more) = some k

theorem keyword_of_smooth {word : Text} {k : Section} (hne : word ≠ [])
    (hsmooth : ∀ c ∈ word, Field.isSmooth c = true) (hsolid : ∀ c ∈ word, Text.isBlank c = false)
    (hdeclares : ∀ more, more ≠ [] → sectionOfKeyword? (word :: more) = some k) :
    Keyword word k :=
  ⟨Field.declarable_of_smooth hne hsmooth hsolid, hsolid, hdeclares⟩

theorem keyword_param : Keyword "param".toList .parameters := by
  have hlower : Text.lowerAscii "param".toList = "param".toList := by decide
  apply keyword_of_smooth (by simp) (List.all_eq_true.mp (by decide)) (by simp [Text.isBlank])
  intro more hmore
  simp only [sectionOfKeyword?, hlower]
  simp [hmore]

theorem keyword_raises {word : Text} (h : word ∈ ["raise".toList, "raises".toList]) :
    Keyword word .raises := by
  rcases List.mem_cons.mp h with rfl | h
  · have hlower : Text.lowerAscii "raise".toList = "raise".toList := by decide
    apply keyword_of_smooth (by simp) (List.all_eq_true.mp (by decide)) (by simp [Text.isBlank])
    intro more hmore
    simp only [sectionOfKeyword?, hlower]
    simp
  · obtain rfl := List.mem_singleton.mp h
    have hlower : Text.lowerAscii "raises".toList = "raises".toList := by decide
    apply keyword_of_smooth (by simp) (List.all_eq_true.mp (by decide)) (by simp [Text.isBlank])
    intro more hmore
    simp only [sectionOfKeyword?, hlower]
    simp

variable {word declared : Text} {k : Section}

/-- A field: its keyword, its declaration, and what follows the colon. -/
def fieldText (word declared rest : Text) : Text := ':' :: (word ++ ' ' :: declared) ++ ':' :: rest

theorem isPrefixOf?_fieldText (word declared rest : Text) :
    ":".toList.isPrefixOf? (fieldText word declared rest) =
      some (word ++ ' ' :: declared ++ ':' :: rest) := by
  simp [fieldText, List.isPrefixOf?]

theorem fieldSection?_of_keyword (hword : Keyword word k) (hdeclared : Field.Declarable declared)
    {rest : Text}
    (htrim : Text.trim (fieldText word declared rest) = fieldText word declared rest) :
    fieldSection? (fieldText word declared rest) = some k := by
  have hboth : Field.Declarable (word ++ ' ' :: declared) := hword.declarable.spaced hdeclared
  have hmore := hword.declares _ (Text.words_ne_nil hdeclared.trimmed hdeclared.ne_nil)
  simp only [fieldSection?, htrim, isPrefixOf?_fieldText, Option.bind_eq_bind, Option.bind_some,
    hboth.split? rest, Text.words_append hword.solid hword.declarable.ne_nil Text.isBlank_space,
    hmore]

/-- A field is no header, even if its description ends in a colon. -/
theorem ownKind?_of_keyword (hword : Keyword word k) (hdeclared : Field.Declarable declared)
    {rest : Text}
    (htrim : Text.trim (fieldText word declared rest) = fieldText word declared rest) :
    ownKind? (fieldText word declared rest) = some (.field k) := by
  have hnone : Section.ofWord? (Text.trim (word ++ ' ' :: declared)) = none := by
    rw [(hword.declarable.spaced hdeclared).trimmed]
    exact Section.ofWord?_eq_none_of_mem (c := ' ') (by simp) (by decide)
  have hheader : colonHeader? (fieldText word declared rest) = none := by
    cases hk : colonHeader? (fieldText word declared rest) with
    | none => rfl
    | some k =>
      obtain ⟨before, hsame, hk⟩ := colonHeader?_eq_some hk
      rw [htrim] at hsame
      cases before with
      | nil => simp [fieldText] at hsame
      | cons c before =>
        obtain ⟨rfl, hbefore⟩ := List.cons.inj hsame
        have hcolon : ":".toList.isPrefixOf? (':' :: before) = some before := by
          simp [List.isPrefixOf?]
        rw [hcolon, Option.getD_some, Section.ofWord?_of_append_colon hnone hbefore] at hk
        cases hk
  have hblank : Text.blank (fieldText word declared rest) = false :=
    Text.blank_eq_false_of_mem (c := ':') (by simp [fieldText]) (by decide)
  simp only [ownKind?, hblank, hheader, fieldSection?_of_keyword hword hdeclared htrim]
  rfl

end Line

namespace Block

variable {word declared : Text} {k : Section}

theorem declaration?_of_keyword (hword : Line.Keyword word k)
    (hdeclared : Field.Declarable declared) (rest : Text) (continuation : List Text) :
    declaration? (Line.fieldText word declared rest) continuation =
      some (declared, Item.appendLines (Text.trim rest) continuation) := by
  have hboth : Field.Declarable (word ++ ' ' :: declared) := hword.declarable.spaced hdeclared
  simp only [declaration?, Line.isPrefixOf?_fieldText, Option.bind_eq_bind, Option.bind_some,
    hboth.split? rest, Text.cutAtFirst?_append hword.solid Text.isBlank_space, hdeclared.trimmed]

theorem declaredParam_of_typed {name typeName : Text}
    (hname : ∀ c ∈ name, Text.isBlank c = false) (htrim : Text.trim typeName = typeName)
    (description : Text) :
    declaredParam (typeName ++ ' ' :: name) description = ⟨name, typeName, description⟩ := by
  rw [declaredParam, Text.cutAtLast?_append hname Text.isBlank_space]
  simp only [htrim]

end Block

end ApiDocs
