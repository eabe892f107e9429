import Mathlib.Data.List.Chain
import ApiDocs.Docstring.Line
import ApiDocs.Proofs.Text.Lines

/-!
# Kinds of lines

The kind of a line depends on the trim of the line and, for a bare section word, on the line
after it. So lines may be classified part by part, as long as no part starts with an underline,
and lines that open nothing can be told from their trims alone.

* `Line.classify_append`: lines are classified part by part.
* `Line.map_text_classify`: classifying keeps the lines.
* `Line.Quiet`: lines among which none opens a section or a field.
* `Line.forall_opens_classify_iff`: quiet lines are those of which no kind opens anything.
* `Line.classify_of_quiet`: quiet lines are blank or text.
* `Line.Quiet.of_isInfix_map_trim`: quietness passes to any lines that stand in a row among the
  trims of quiet ones.
-/

namespace ApiDocs

/-! ## Section words -/

namespace Section

/-- A section word is not empty, and it consists of letters. -/
theorem letters_of_ofWord? {t : Text} {k : Section} (h : ofWord? t = some k) :
    t ≠ [] ∧ ∀ c ∈ t, c.toLower.isLower = true := by
  have hmem : Text.lowerAscii t ∈ k.vocabulary := by
    have := List.find?_some h
    simpa using this
  have hwords : ∀ w ∈ k.vocabulary, w ≠ [] ∧ ∀ c ∈ w, c.isLower = true := by
    cases k <;> simp [vocabulary]
  obtain ⟨hne, hall⟩ := hwords _ hmem
  constructor
  · rintro rfl
    exact hne rfl
  · intro c hc
    exact hall _ (List.mem_map_of_mem hc)

theorem ofWord?_eq_none_of_mem {t : Text} {c : Char} (hc : c ∈ t)
    (h : c.toLower.isLower = false) : ofWord? t = none := by
  cases hk : ofWord? t with
  | none => rfl
  | some k => simp [(letters_of_ofWord? hk).2 c hc] at h

@[simp] theorem ofWord?_nil : ofWord? [] = none := by decide

/-- Between blanks, a section word has nothing but letters. -/
theorem letter_of_ofWord?_trim {t : Text} {k : Section} (h : ofWord? (Text.trim t) = some k)
    {c : Char} (hc : c ∈ t) (hsolid : Text.isBlank c = false) : c.toLower.isLower = true := by
  obtain ⟨a, b, ha, hb, ht⟩ := Text.exists_eq_trim t
  rw [ht] at hc
  rcases List.mem_append.mp hc with hc | hc
  · rcases List.mem_append.mp hc with hc | hc
    · simp [Text.blank_iff.mp ha c hc] at hsolid
    · exact (letters_of_ofWord? h).2 c hc
  · simp [Text.blank_iff.mp hb c hc] at hsolid

end Section

namespace Line

/-! ## The kind of a line by itself -/

theorem colonHeader?_eq_some {s : Text} {k : Section} (h : colonHeader? s = some k) :
    ∃ word, Text.trim s = word ++ [':'] ∧
      Section.ofWord? (Text.trim ((":".toList.isPrefixOf? word).getD word)) = some k := by
  simp only [colonHeader?, Option.bind_eq_bind, Option.bind_eq_some_iff] at h
  obtain ⟨word, hword, hk⟩ := h
  exact ⟨word, (List.isSuffixOf?_eq_some_iff_append_eq.mp hword).symm, hk⟩

/-- A trimmed line that does not start with a colon is a header if it ends in one. -/
theorem colonHeader?_eq_some_iff {s : Text} (htrim : Text.trim s = s)
    (hhead : s.head? ≠ some ':') {k : Section} :
    colonHeader? s = some k ↔
      ∃ word, s = word ++ [':'] ∧ Section.ofWord? (Text.trim word) = some k := by
  have hnone : ∀ word, s = word ++ [':'] → ":".toList.isPrefixOf? word = none := by
    rintro word rfl
    cases word with
    | nil => rfl
    | cons c word =>
      have hc : c ≠ ':' := by simpa using hhead
      simp [List.isPrefixOf?, hc.symm]
  constructor
  · intro h
    obtain ⟨word, hs, hk⟩ := colonHeader?_eq_some h
    rw [htrim] at hs
    rw [hnone word hs, Option.getD_none] at hk
    exact ⟨word, hs, hk⟩
  · rintro ⟨word, hs, hk⟩
    have hsuffix : ":".toList.isSuffixOf? s = some word :=
      List.isSuffixOf?_eq_some_iff_append_eq.mpr hs.symm
    simp only [colonHeader?, htrim, hsuffix, Option.bind_eq_bind, Option.bind_some,
      hnone word hs, Option.getD_none, hk]

theorem fieldSection?_eq_some {s : Text} {k : Section} (h : fieldSection? s = some k) :
    ∃ field declaration inline, Text.trim s = ':' :: field ∧
      Field.split? field = some (declaration, inline) ∧
      sectionOfKeyword? (Text.words declaration) = some k := by
  simp only [fieldSection?, Option.bind_eq_bind, Option.bind_eq_some_iff] at h
  obtain ⟨field, hfield, ⟨declaration, inline⟩, hsplit, hk⟩ := h
  exact ⟨field, declaration, inline, (List.isPrefixOf?_eq_some_iff_append_eq.mp hfield).symm,
    hsplit, hk⟩

theorem colonHeader?_eq_none {s : Text} (h : (Text.trim s).getLast? ≠ some ':') :
    colonHeader? s = none := by
  cases hk : colonHeader? s with
  | none => rfl
  | some k =>
    obtain ⟨word, hs, -⟩ := colonHeader?_eq_some hk
    simp [hs] at h

theorem fieldSection?_eq_none {s : Text} (h : (Text.trim s).head? ≠ some ':') :
    fieldSection? s = none := by
  cases hk : fieldSection? s with
  | none => rfl
  | some k =>
    obtain ⟨field, -, -, hs, -⟩ := fieldSection?_eq_some hk
    simp [hs] at h

@[simp] theorem ownKind?_trim (s : Text) : ownKind? (Text.trim s) = ownKind? s := by
  simp [ownKind?, colonHeader?, fieldSection?]

/-- What a line may be by itself. -/
theorem ownKind?_cases (s : Text) :
    (Text.blank s = true ∧ ownKind? s = some .blank) ∨
      Text.blank s = false ∧
        ((∃ k, colonHeader? s = some k ∧ ownKind? s = some (.header k)) ∨
          (∃ k, fieldSection? s = some k ∧ ownKind? s = some (.field k)) ∨ ownKind? s = none) := by
  unfold ownKind?
  cases hb : Text.blank s with
  | true => simp
  | false =>
    cases hc : colonHeader? s with
    | some k => simp
    | none => cases hf : fieldSection? s <;> simp

/-- A line without a colon at either end of its trim has no kind of its own. -/
theorem ownKind?_eq_none {s : Text} (hb : Text.blank s = false)
    (hhead : (Text.trim s).head? ≠ some ':') (hlast : (Text.trim s).getLast? ≠ some ':') :
    ownKind? s = none := by
  simp [ownKind?, hb, colonHeader?_eq_none hlast, fieldSection?_eq_none hhead]

theorem blank_eq_false_of_ownKind? {s : Text} (h : ownKind? s = none) : Text.blank s = false := by
  rcases ownKind?_cases s with ⟨-, hk⟩ | ⟨hb, -⟩
  · simp [h] at hk
  · exact hb

theorem ownKind?_of_ofWord? {s : Text} {k : Section} (h : Section.ofWord? (Text.trim s) = some k) :
    ownKind? s = none := by
  obtain ⟨hne, hletters⟩ := Section.letters_of_ofWord? h
  have hcolon : ':' ∉ Text.trim s := fun hmem => absurd (hletters _ hmem) (by decide)
  refine ownKind?_eq_none ?_ ?_ ?_
  · have := Text.blank_eq_false_of_trimmed (Text.trim_trim s) hne
    simpa using this
  · exact fun hc => hcolon (List.mem_of_head? hc)
  · exact fun hc => hcolon (List.mem_of_getLast? hc)

theorem of_isUnderline {s : Text} (h : isUnderline s = true) :
    ownKind? s = none ∧ Section.ofWord? (Text.trim s) = none := by
  simp only [isUnderline, Bool.and_eq_true, Bool.or_eq_true, List.all_eq_true,
    decide_eq_true_eq] at h
  obtain ⟨hlen, hall⟩ := h
  have hmark : ∀ c ∈ Text.trim s, c = '-' ∨ c = '=' := by
    rcases hall with hall | hall
    · exact fun c hc => .inl (by simpa using hall c hc)
    · exact fun c hc => .inr (by simpa using hall c hc)
  have hcolon : ':' ∉ Text.trim s := fun hc => by simpa using hmark _ hc
  obtain ⟨c, t, hct⟩ := List.exists_cons_of_length_pos (l := Text.trim s) (by omega)
  have hc : c ∈ Text.trim s := hct ▸ List.mem_cons_self
  refine ⟨ownKind?_eq_none ?_ ?_ ?_, Section.ofWord?_eq_none_of_mem hc ?_⟩
  · have := Text.blank_eq_false_of_trimmed (Text.trim_trim s) (by simp [hct])
    simpa using this
  · exact fun h' => hcolon (List.mem_of_head? h')
  · exact fun h' => hcolon (List.mem_of_getLast? h')
  · rcases hmark c hc with rfl | rfl <;> decide

/-! ## Lines part by part -/

theorem classify_cons_of_ownKind? {s : Text} {kind : LineKind} (h : ownKind? s = some kind)
    (rest : List Text) : classify (s :: rest) = ⟨s, kind⟩ :: classify rest := by
  cases rest with
  | nil => simp [classify, h]
  | cons next rest => simp [classify, h]

theorem classify_cons_text {s : Text} (h : ownKind? s = none) {rest : List Text}
    (hrest : ∀ next, rest.head? = some next → (Section.ofWord? (Text.trim s)).isSome = true →
      isUnderline next = false) :
    classify (s :: rest) = ⟨s, .text⟩ :: classify rest := by
  cases rest with
  | nil => simp [classify, h]
  | cons next rest =>
    have hnext := hrest next rfl
    cases hk : Section.ofWord? (Text.trim s) with
    | none => simp [classify, h, hk]
    | some k => simp [classify, h, hk, hnext (by simp [hk])]

theorem classify_cons_underlined {s next : Text} {k : Section}
    (hs : Section.ofWord? (Text.trim s) = some k) (hnext : isUnderline next = true)
    (rest : List Text) :
    classify (s :: next :: rest) = ⟨s, .header k⟩ :: ⟨next, .underline⟩ :: classify rest := by
  simp [classify, ownKind?_of_ofWord? hs, hs, hnext]

/-- Lines are classified part by part, since only an underline looks back. -/
theorem classify_append {xs ys : List Text}
    (h : ∀ y, ys.head? = some y → isUnderline y = false) :
    classify (xs ++ ys) = classify xs ++ classify ys := by
  fun_induction classify xs with
  | case1 => rfl
  | case2 s =>
    cases hk : ownKind? s with
    | none => simpa using classify_cons_text hk fun y hy _ => h y hy
    | some kind => simpa using classify_cons_of_ownKind? hk ys
  | case3 s next rest kind hk ih =>
    rw [List.cons_append, classify_cons_of_ownKind? hk, ih, List.cons_append]
  | case4 s next rest k hnext hs _ ih =>
    rw [List.cons_append, List.cons_append, classify_cons_underlined hs hnext, ih,
      List.cons_append, List.cons_append]
  | case5 s next rest hk hne ih =>
    rw [List.cons_append, classify_cons_text hk, ih, List.cons_append]
    intro y hy hword
    obtain rfl : next = y := by simpa using hy
    obtain ⟨k, hs⟩ := Option.isSome_iff_exists.mp hword
    simpa using hne k hs

@[simp] theorem map_text_classify (xs : List Text) : (classify xs).map (·.text) = xs := by
  fun_induction classify xs <;> simp_all

theorem text_mem_of_mem_classify {xs : List Text} {l : Line} (h : l ∈ classify xs) :
    l.text ∈ xs := by
  have := List.mem_map_of_mem (f := (·.text)) h
  rwa [map_text_classify] at this

/-- What the kind of a line says about its text. -/
theorem kind_spec {xs : List Text} {l : Line} (h : l ∈ classify xs) :
    (l.kind = .blank ↔ Text.blank l.text = true) ∧
      ∀ k, l.kind = .field k → fieldSection? l.text = some k := by
  have hown : ∀ s kind, ownKind? s = some kind →
      (kind = .blank ↔ Text.blank s = true) ∧ ∀ k, kind = .field k → fieldSection? s = some k := by
    intro s kind hs
    rcases ownKind?_cases s with ⟨hb, hk⟩ | ⟨hb, ⟨k, -, hk⟩ | ⟨k, hf, hk⟩ | hk⟩
    · cases hs.symm.trans hk
      simp [hb]
    · cases hs.symm.trans hk
      simp [hb]
    · cases hs.symm.trans hk
      simp [hb, hf]
    · cases hs.symm.trans hk
  fun_induction classify xs with
  | case1 => simp at h
  | case2 s =>
    obtain rfl := List.mem_singleton.mp h
    cases hk : ownKind? s with
    | none => simp [blank_eq_false_of_ownKind? hk]
    | some kind => simpa using hown s kind hk
  | case3 s next rest kind hk ih =>
    rcases List.mem_cons.mp h with rfl | h
    · exact hown s kind hk
    · exact ih h
  | case4 s next rest k hnext hs hk ih =>
    rcases List.mem_cons.mp h with rfl | h
    · simp [blank_eq_false_of_ownKind? hk]
    · rcases List.mem_cons.mp h with rfl | h
      · simp [blank_eq_false_of_ownKind? (of_isUnderline hnext).1]
      · exact ih h
  | case5 s next rest hk _ ih =>
    rcases List.mem_cons.mp h with rfl | h
    · simp [blank_eq_false_of_ownKind? hk]
    · exact ih h

theorem isUnderline_eq_false_of_opens {s : Text} {rest : List Text} {l : Line} {ls : List Line}
    (h : classify (s :: rest) = l :: ls) (hl : l.opens = true) : isUnderline s = false := by
  by_contra hs
  obtain ⟨hk, hword⟩ := of_isUnderline (by simpa using hs)
  rw [classify_cons_text hk (by simp [hword])] at h
  obtain ⟨rfl, -⟩ := List.cons.inj h
  simp [opens] at hl

/-! ## Quiet lines -/

/-- Whether a line opens a section or a field whatever stands around it. -/
def opensAlone (s : Text) : Bool :=
  match ownKind? s with
  | some (.header _) | some (.field _) => true
  | _ => false

/-- Lines among which none opens a section or a field: none does alone, and no section word
stands above an underline. -/
structure Quiet (lines : List Text) : Prop where
  alone : ∀ s ∈ lines, opensAlone s = false
  apart : lines.IsChain fun s next =>
    (Section.ofWord? (Text.trim s)).isSome = true → isUnderline next = false

theorem opensAlone_eq_false_iff {s : Text} :
    opensAlone s = false ↔ ownKind? s = none ∨ ownKind? s = some .blank := by
  unfold opensAlone
  rcases ownKind?_cases s with ⟨-, hk⟩ | ⟨-, ⟨k, -, hk⟩ | ⟨k, -, hk⟩ | hk⟩ <;> simp [hk]

theorem ofWord?_eq_none_of_ownKind? {s : Text} {kind : LineKind} (h : ownKind? s = some kind) :
    (Section.ofWord? (Text.trim s)).isSome = false := by
  cases hs : Section.ofWord? (Text.trim s) with
  | none => rfl
  | some k => simp [ownKind?_of_ofWord? hs] at h

theorem quiet_nil : Quiet [] := ⟨by simp, .nil⟩

theorem quiet_cons_iff {s : Text} {rest : List Text} :
    Quiet (s :: rest) ↔ opensAlone s = false ∧
      (∀ next, rest.head? = some next → (Section.ofWord? (Text.trim s)).isSome = true →
        isUnderline next = false) ∧ Quiet rest := by
  constructor
  · rintro ⟨halone, hapart⟩
    rw [List.isChain_cons] at hapart
    exact ⟨halone s List.mem_cons_self, hapart.1,
      ⟨fun t ht => halone t (List.mem_cons_of_mem _ ht), hapart.2⟩⟩
  · rintro ⟨hs, hnext, halone, hapart⟩
    refine ⟨fun t ht => ?_, List.isChain_cons.mpr ⟨hnext, hapart⟩⟩
    rcases List.mem_cons.mp ht with rfl | ht
    · exact hs
    · exact halone t ht

/-- Quiet lines are those of which no kind opens anything. -/
theorem forall_opens_classify_iff {xs : List Text} :
    (∀ l ∈ classify xs, l.opens = false) ↔ Quiet xs := by
  fun_induction classify xs with
  | case1 => simp [quiet_nil]
  | case2 s =>
    rw [quiet_cons_iff]
    cases hk : ownKind? s with
    | none => simp [opens, opensAlone, hk, quiet_nil]
    | some kind => cases kind <;> simp [opens, opensAlone, hk, quiet_nil]
  | case3 s next rest kind hk ih =>
    rw [quiet_cons_iff, List.forall_mem_cons, ih]
    have hword := ofWord?_eq_none_of_ownKind? hk
    cases kind <;> simp [opens, opensAlone, hk, hword]
  | case4 s next rest k hnext hs hk ih =>
    rw [quiet_cons_iff]
    simp [opens, hs, hnext]
  | case5 s next rest hk hne ih =>
    rw [quiet_cons_iff, List.forall_mem_cons, ih]
    have hnext : (Section.ofWord? (Text.trim s)).isSome = true → isUnderline next = false := by
      intro hword
      obtain ⟨k, hs⟩ := Option.isSome_iff_exists.mp hword
      simpa using hne k hs
    simp [opens, opensAlone, hk]
    exact fun _ => hnext

/-- Quiet lines are blank or text. -/
theorem classify_of_quiet {xs : List Text} (h : Quiet xs) :
    classify xs = xs.map fun s => ⟨s, if Text.blank s then .blank else .text⟩ := by
  induction xs with
  | nil => rfl
  | cons s rest ih =>
    obtain ⟨hs, hnext, hrest⟩ := quiet_cons_iff.mp h
    rw [List.map_cons, ← ih hrest]
    rcases opensAlone_eq_false_iff.mp hs with hk | hk
    · rw [classify_cons_text hk hnext, blank_eq_false_of_ownKind? hk]
      rfl
    · have hb : Text.blank s = true := by
        rcases ownKind?_cases s with ⟨hb, -⟩ | ⟨-, ⟨k, -, hk'⟩ | ⟨k, -, hk'⟩ | hk'⟩
        · exact hb
        all_goals cases hk.symm.trans hk'
      rw [classify_cons_of_ownKind? hk, hb]
      rfl

@[simp] theorem opensAlone_trim (s : Text) : opensAlone (Text.trim s) = opensAlone s := by
  simp [opensAlone]

@[simp] theorem isUnderline_trim (s : Text) : isUnderline (Text.trim s) = isUnderline s := by
  simp [isUnderline]

/-- Whether lines are quiet shows in their trims. -/
theorem quiet_map_trim {xs : List Text} : Quiet (xs.map Text.trim) ↔ Quiet xs := by
  constructor
  · rintro ⟨halone, hapart⟩
    refine ⟨fun s hs => ?_, ?_⟩
    · simpa using halone _ (List.mem_map_of_mem hs)
    · rw [List.isChain_map] at hapart
      simpa using hapart
  · rintro ⟨halone, hapart⟩
    refine ⟨fun t ht => ?_, ?_⟩
    · obtain ⟨s, hs, rfl⟩ := List.mem_map.mp ht
      simpa using halone s hs
    · rw [List.isChain_map]
      simpa using hapart

theorem Quiet.of_isInfix {xs ys : List Text} (h : Quiet ys) (hxs : xs <:+: ys) : Quiet xs :=
  ⟨fun s hs => h.alone s (hxs.subset hs), h.apart.infix hxs⟩

/-- Quietness passes to lines whose trims stand in a row among the trims of quiet lines. -/
theorem Quiet.of_isInfix_map_trim {xs ys : List Text} (h : Quiet ys)
    (hxs : xs.map Text.trim <:+: ys.map Text.trim) : Quiet xs :=
  quiet_map_trim.mp ((quiet_map_trim.mpr h).of_isInfix hxs)

/-- Two quiet parts are quiet together if the second does not start with an underline. -/
theorem Quiet.append {xs ys : List Text} (hxs : Quiet xs) (hys : Quiet ys)
    (h : ∀ y, ys.head? = some y → isUnderline y = false) : Quiet (xs ++ ys) := by
  rw [← forall_opens_classify_iff, classify_append h]
  intro l hl
  rcases List.mem_append.mp hl with hl | hl
  · exact forall_opens_classify_iff.mpr hxs l hl
  · exact forall_opens_classify_iff.mpr hys l hl

end Line

end ApiDocs
