import ApiDocs.Docstring.Block
import ApiDocs.Proofs.Docstring.Classification

/-!
# Blocks of classified lines

What the blocks of a text are made of: lines that stand in a row in the text and open nothing
themselves, below the line that opens the block.

* `Block.gather_cons_of_opens`, `Block.gather_cons_of_not_opens`: one line more.
* `Block.fst_gather_classify`: the lines before the first block are quiet.
* `Block.MadeFrom`: the lines of a block, as they stand in a text.
* `Block.madeFrom_of_mem_gather`: every block is made from lines of its text.
-/

namespace ApiDocs

namespace Block

/-! ## Blocks of lines -/

theorem isSome_opened? (l : Line) (following : List Line) :
    (opened? l following).isSome = l.opens := by
  unfold opened? Line.opens
  split <;> simp_all

theorem gather_cons_of_opens {l : Line} (h : l.opens = true) (rest : List Line) :
    ∃ block, opened? l (gather rest).1 = some block ∧
      gather (l :: rest) = ([], block :: (gather rest).2) := by
  have hsome : (opened? l (gather rest).1).isSome = true := by rw [isSome_opened?, h]
  obtain ⟨block, hblock⟩ := Option.isSome_iff_exists.mp hsome
  exact ⟨block, hblock, by simp [gather, hblock]⟩

theorem gather_cons_of_not_opens {l : Line} (h : l.opens = false) (rest : List Line) :
    gather (l :: rest) = (l :: (gather rest).1, (gather rest).2) := by
  have hnone : opened? l (gather rest).1 = none := by
    rw [← Option.isNone_iff_eq_none, ← Option.not_isSome, isSome_opened?, h]
    rfl
  simp [gather, hnone]

theorem gather_of_forall_not_opens {ls : List Line} (h : ∀ l ∈ ls, l.opens = false) :
    gather ls = (ls, []) := by
  induction ls with
  | nil => rfl
  | cons l ls ih =>
    have hl := h l List.mem_cons_self
    rw [gather_cons_of_not_opens hl, ih fun m hm => h m (List.mem_cons_of_mem _ hm)]

/-! ## Where the lines of a block stand -/

theorem ownedLines_of_quiet {zs : List Text} (h : Line.Quiet zs) :
    ownedLines (Line.classify zs) = Line.classify zs := by
  unfold ownedLines
  rw [List.filter_eq_self, Line.classify_of_quiet h]
  intro l hl
  obtain ⟨s, -, rfl⟩ := List.mem_map.mp hl
  cases hb : Text.blank s <;> simp

/-- The lines before the first block are quiet lines at the start of the text. -/
theorem fst_gather_classify (xs : List Text) :
    ∃ zs, zs <+: xs ∧ Line.Quiet zs ∧ (gather (Line.classify xs)).1 = Line.classify zs := by
  have hopener : ∀ (l : Line) (ls : List Line), l.opens = true → (gather (l :: ls)).1 = [] := by
    intro l ls hl
    obtain ⟨block, -, hg⟩ := gather_cons_of_opens hl ls
    rw [hg]
  fun_induction Line.classify xs with
  | case1 => exact ⟨[], List.prefix_rfl, Line.quiet_nil, rfl⟩
  | case2 s =>
    cases hl : Line.opens ⟨s, (Line.ownKind? s).getD .text⟩ with
    | true => exact ⟨[], List.nil_prefix, Line.quiet_nil, hopener _ _ hl⟩
    | false =>
      refine ⟨[s], List.prefix_rfl, Line.forall_opens_classify_iff.mp ?_, ?_⟩
      · simpa [Line.classify] using hl
      · rw [gather_cons_of_not_opens hl]
        simp [gather, Line.classify]
  | case3 s next rest kind hk ih =>
    obtain ⟨zs, hzs, hquiet, hg⟩ := ih
    cases hl : Line.opens ⟨s, kind⟩ with
    | true => exact ⟨[], List.nil_prefix, Line.quiet_nil, hopener _ _ hl⟩
    | false =>
      have hcons := Line.classify_cons_of_ownKind? hk zs
      refine ⟨s :: zs, List.cons_prefix_cons.mpr ⟨rfl, hzs⟩, ?_, ?_⟩
      · rw [← Line.forall_opens_classify_iff, hcons, List.forall_mem_cons]
        exact ⟨hl, Line.forall_opens_classify_iff.mpr hquiet⟩
      · rw [gather_cons_of_not_opens hl, hg, hcons]
  | case4 s next rest k hnext hs _ ih =>
    exact ⟨[], List.nil_prefix, Line.quiet_nil, hopener _ _ rfl⟩
  | case5 s next rest hk hne ih =>
    obtain ⟨zs, hzs, hquiet, hg⟩ := ih
    have hcons : Line.classify (s :: zs) = ⟨s, .text⟩ :: Line.classify zs := by
      refine Line.classify_cons_text hk fun y hy hword => ?_
      obtain ⟨k, hs⟩ := Option.isSome_iff_exists.mp hword
      obtain rfl : next = y := by
        obtain ⟨ws, hws⟩ := hzs
        cases zs with
        | nil => simp at hy
        | cons z zs => exact (List.cons.inj hws).1.symm.trans (by simpa using hy)
      simpa using hne k hs
    refine ⟨s :: zs, List.cons_prefix_cons.mpr ⟨rfl, hzs⟩, ?_, ?_⟩
    · rw [← Line.forall_opens_classify_iff, hcons, List.forall_mem_cons]
      exact ⟨rfl, Line.forall_opens_classify_iff.mpr hquiet⟩
    · rw [gather_cons_of_not_opens rfl, hg, hcons]

/-- The lines of a block as they stand in a row among the lines `xs`: those under a header, or
a field and those that continue it. -/
inductive MadeFrom (xs : List Text) : Block → Prop
  | body (k : Section) {zs : List Text} (inRow : zs <:+: xs) (quiet : Line.Quiet zs) :
    MadeFrom xs (body k (Line.classify zs))
  | field {k : Section} {s : Text} {zs : List Text} (first : s ∈ xs) (inRow : zs <:+: xs)
    (declares : Line.fieldSection? s = some k) (quiet : Line.Quiet zs) :
    MadeFrom xs (field k (Text.trim s) ((zs.takeWhile (!Text.blank ·)).map Text.trim))

theorem MadeFrom.mono {xs ys : List Text} {b : Block} (h : MadeFrom xs b) (hxs : xs <:+: ys) :
    MadeFrom ys b := by
  cases h with
  | body k inRow quiet => exact .body k (inRow.trans hxs) quiet
  | field first inRow declares quiet =>
    exact .field (hxs.subset first) (inRow.trans hxs) declares quiet

theorem map_trimmed_takeWhile {zs : List Text} (h : Line.Quiet zs) :
    ((Line.classify zs).takeWhile (!·.isBlank)).map (·.trimmed) =
      (zs.takeWhile (!Text.blank ·)).map Text.trim := by
  have hblank : (fun l : Line => !l.isBlank) ∘
      (fun s => ⟨s, if Text.blank s then .blank else .text⟩) = fun s => !Text.blank s := by
    funext s
    cases hb : Text.blank s <;> simp [Line.isBlank, hb]
  rw [Line.classify_of_quiet h, List.takeWhile_map, hblank, List.map_map]
  rfl

theorem madeFrom_of_opened? {s : Text} {kind : LineKind} {xs zs : List Text} {b : Block}
    (hs : s ∈ xs) (hzs : zs <:+: xs) (hquiet : Line.Quiet zs)
    (hfield : ∀ k, kind = .field k → Line.fieldSection? s = some k)
    (h : opened? ⟨s, kind⟩ (Line.classify zs) = some b) : MadeFrom xs b := by
  unfold opened? at h
  split at h
  · cases h
    rw [ownedLines_of_quiet hquiet]
    exact .body _ hzs hquiet
  · rename_i k hk
    cases h
    rw [ownedLines_of_quiet hquiet, map_trimmed_takeWhile hquiet]
    exact .field hs hzs (hfield k hk) hquiet
  · cases h

/-- Every block is made from lines of its text. -/
theorem madeFrom_of_mem_gather {xs : List Text} {b : Block}
    (h : b ∈ (gather (Line.classify xs)).2) : MadeFrom xs b := by
  fun_induction Line.classify xs with
  | case1 => simp [gather] at h
  | case2 s =>
    cases hl : Line.opens ⟨s, (Line.ownKind? s).getD .text⟩ with
    | false =>
      rw [gather_cons_of_not_opens hl] at h
      simp [gather] at h
    | true =>
      obtain ⟨block, hblock, hg⟩ := gather_cons_of_opens hl []
      rw [hg] at h
      obtain rfl : b = block := by simpa [gather] using h
      have hmem : ⟨s, (Line.ownKind? s).getD .text⟩ ∈ Line.classify [s] := by simp [Line.classify]
      exact madeFrom_of_opened? List.mem_cons_self List.nil_infix Line.quiet_nil
        (Line.kind_spec hmem).2 hblock
  | case3 s next rest kind hk ih =>
    have hrest : next :: rest <:+: s :: next :: rest := (List.suffix_cons ..).isInfix
    cases hl : Line.opens ⟨s, kind⟩ with
    | false =>
      rw [gather_cons_of_not_opens hl] at h
      exact (ih h).mono hrest
    | true =>
      obtain ⟨block, hblock, hg⟩ := gather_cons_of_opens hl (Line.classify (next :: rest))
      rw [hg] at h
      rcases List.mem_cons.mp h with rfl | h
      · obtain ⟨zs, hzs, hquiet, hfst⟩ := fst_gather_classify (next :: rest)
        have hmem : ⟨s, kind⟩ ∈ Line.classify (s :: next :: rest) := by
          rw [Line.classify_cons_of_ownKind? hk]
          exact List.mem_cons_self
        rw [hfst] at hblock
        exact madeFrom_of_opened? List.mem_cons_self (hzs.isInfix.trans hrest) hquiet
          (Line.kind_spec hmem).2 hblock
      · exact (ih h).mono hrest
  | case4 s next rest k hnext hs _ ih =>
    have hrest : rest <:+: s :: next :: rest :=
      (List.suffix_cons next rest).isInfix.trans (List.suffix_cons ..).isInfix
    have hhead : ∀ ls, gather (⟨s, .header k⟩ :: ⟨next, .underline⟩ :: ls) =
        ([], body k (ownedLines (gather ls).1) :: (gather ls).2) := by
      intro ls
      rw [gather, gather_cons_of_not_opens (l := ⟨next, .underline⟩) rfl]
      simp [opened?, ownedLines]
    rw [hhead] at h
    rcases List.mem_cons.mp h with rfl | h
    · obtain ⟨zs, hzs, hquiet, hfst⟩ := fst_gather_classify rest
      rw [hfst, ownedLines_of_quiet hquiet]
      exact .body k (hzs.isInfix.trans hrest) hquiet
    · exact (ih h).mono hrest
  | case5 s next rest hk _ ih =>
    rw [gather_cons_of_not_opens rfl] at h
    exact (ih h).mono (List.suffix_cons ..).isInfix

end Block

end ApiDocs
