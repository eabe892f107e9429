import Mathlib.Data.List.Nodup
import ApiDocs.Proofs.Package.SelectionModes

/-!
# Ambiguous names

Documentation is refused if two members that have to be told apart share a name. Which members these
are is decided apart from the choice of the members that are documented. Where members are asked for
by name, or all public ones are, the two agree. Where some are excluded, they do not: the check
looks at excluded members as well, and documentation is refused for a name that nobody has asked
for.

* `Selection.asksFor`: the members that a selection asks for.
* `IsShared`: a name of two members.
* `secondNames`: shared names, in the order of the second members that have them.
* `Container.repeatedNames_eq_secondNames`: the check finds these.
* `Container.document_refuses_shared`: when documentation is refused, and for which names.
* `Container.document_refuses_excluded`: a shared name that is excluded.
-/

namespace ApiDocs

/-! ## Shared names -/

/-- Two members that count have the same name. -/
def IsShared (counts : Member → Bool) (members : List Member) (name : Text) : Prop :=
  ∃ (i j : Nat) (u v : Member), i < j ∧ members[i]? = some u ∧ members[j]? = some v ∧
    (counts u = true ∧ u.name = name) ∧ (counts v = true ∧ v.name = name)

/-- The names of the members that count and have the name of exactly one earlier member that
counts. -/
def secondNames (counts : Member → Bool) (members : List Member) : List Text :=
  (members.zipIdx.filter fun x =>
    counts x.1 &&
      (members.take x.2).countP (fun m => counts m && m.name == x.1.name) == 1).map (·.1.name)

theorem two_le_countP_iff {α : Type} {p : α → Bool} {l : List α} :
    2 ≤ l.countP p ↔
      ∃ (i j : Nat) (u v : α), i < j ∧ l[i]? = some u ∧ l[j]? = some v ∧ p u = true ∧
        p v = true := by
  induction l with
  | nil => simp
  | cons a l ih =>
    constructor
    · intro h
      by_cases ha : p a = true
      · rw [List.countP_cons_of_pos ha] at h
        obtain ⟨v, hv, hpv⟩ := List.countP_pos_iff.mp (Nat.lt_of_succ_lt_succ h)
        obtain ⟨j, hj⟩ := List.mem_iff_getElem?.mp hv
        exact ⟨0, j + 1, a, v, Nat.succ_pos j, rfl, hj, ha, hpv⟩
      · rw [List.countP_cons_of_neg ha] at h
        obtain ⟨i, j, u, v, hij, hu, hv, hpu, hpv⟩ := ih.mp h
        exact ⟨i + 1, j + 1, u, v, Nat.succ_lt_succ hij, hu, hv, hpu, hpv⟩
    · rintro ⟨i, j, u, v, hij, hu, hv, hpu, hpv⟩
      obtain ⟨j, rfl⟩ := Nat.exists_eq_succ_of_ne_zero (Nat.ne_zero_of_lt hij)
      cases i with
      | zero =>
        obtain rfl : a = u := Option.some.inj hu
        have hpos : 0 < l.countP p := List.countP_pos_iff.mpr ⟨v, List.mem_of_getElem? hv, hpv⟩
        rw [List.countP_cons_of_pos hpu]
        exact Nat.succ_lt_succ hpos
      | succ i =>
        have hrest := ih.mpr ⟨i, j, u, v, Nat.lt_of_succ_lt_succ hij, hu, hv, hpu, hpv⟩
        exact Nat.le_trans hrest ((List.sublist_cons_self a l).countP_le)

theorem isShared_iff {counts : Member → Bool} {members : List Member} {name : Text} :
    IsShared counts members name ↔
      2 ≤ members.countP fun m => counts m && m.name == name := by
  rw [two_le_countP_iff]
  simp only [IsShared, Bool.and_eq_true, beq_iff_eq]

theorem count_map_name (counts : Member → Bool) (members : List Member) (n : Text) :
    ((members.filter counts).map (·.name)).count n =
      members.countP fun m => counts m && m.name == n := by
  rw [List.count, List.countP_map, List.countP_filter]
  refine List.countP_congr fun m _ => ?_
  simp [and_comm]

theorem secondNames_concat (counts : Member → Bool) (members : List Member) (m : Member) :
    secondNames counts (members ++ [m]) =
      secondNames counts members ++
        if counts m && members.countP (fun x => counts x && x.name == m.name) == 1 then [m.name]
        else [] := by
  have hbefore : members.zipIdx.filter (fun x =>
      counts x.1 && ((members ++ [m]).take x.2).countP
        (fun y => counts y && y.name == x.1.name) == 1) =
      members.zipIdx.filter fun x =>
        counts x.1 && (members.take x.2).countP (fun y => counts y && y.name == x.1.name) == 1 := by
    refine List.filter_congr fun x hx => ?_
    have hlt : x.2 ≤ members.length := Nat.le_of_lt (List.snd_lt_of_mem_zipIdx hx)
    rw [List.take_append_of_le_length hlt]
  rw [secondNames, List.zipIdx_append, List.filter_append, hbefore, List.map_append, secondNames]
  congr 1
  simp only [Nat.zero_add, List.zipIdx_singleton, List.filter_cons, List.filter_nil, List.take_left]
  split <;> rfl

namespace Container

/-! ## The check -/

theorem mem_repeatsFrom_iff {seen names : List Text} {n : Text} :
    n ∈ repeatsFrom seen names ↔ (n ∈ seen ∧ n ∈ names) ∨ 2 ≤ names.count n := by
  induction names generalizing seen with
  | nil => simp [repeatsFrom]
  | cons m names ih =>
    have hmem : n ∈ names ↔ 1 ≤ names.count n := List.one_le_count_iff.symm
    rw [repeatsFrom]
    split
    · rename_i hseen
      rw [List.mem_cons, ih]
      by_cases hn : n = m
      · have hn' : n ∈ seen := hn ▸ List.contains_iff_mem.mp hseen
        exact ⟨fun _ => .inl ⟨hn', hn ▸ List.mem_cons_self⟩, fun _ => .inl hn⟩
      · simp [hn, List.count_cons_of_ne (Ne.symm hn)]
    · rename_i hseen
      rw [ih]
      by_cases hn : n = m
      · subst hn
        have hseen : n ∉ seen := by simpa using hseen
        rw [List.count_cons_self, hmem]
        simp only [List.mem_cons, true_or, true_and, hseen, false_and, false_or]
        omega
      · simp [hn, List.count_cons_of_ne (Ne.symm hn)]

theorem repeatsFrom_concat (seen names : List Text) (n : Text) :
    repeatsFrom seen (names ++ [n]) =
      repeatsFrom seen names ++ if n ∈ seen ∨ n ∈ names then [n] else [] := by
  induction names generalizing seen with
  | nil => by_cases hn : n ∈ seen <;> simp [repeatsFrom, hn]
  | cons m names ih =>
    rw [List.cons_append, repeatsFrom, repeatsFrom]
    split
    · rename_i hseen
      have hsame : (n ∈ seen ∨ n ∈ m :: names) ↔ (n ∈ seen ∨ n ∈ names) := by
        have : n = m → n ∈ seen := fun h => h ▸ List.contains_iff_mem.mp hseen
        rw [List.mem_cons]
        tauto
      rw [ih, if_congr hsame rfl rfl]
      rfl
    · have hsame : (n ∈ m :: seen ∨ n ∈ names) ↔ (n ∈ seen ∨ n ∈ m :: names) := by
        rw [List.mem_cons, List.mem_cons]
        tauto
      rw [ih, if_congr hsame rfl rfl]

/-- A name is reported when it occurs for the second time. -/
theorem repeatedNames_concat (names : List Text) (n : Text) :
    repeatedNames (names ++ [n]) =
      repeatedNames names ++ if names.count n = 1 then [n] else [] := by
  have hmem : n ∈ names ↔ 1 ≤ names.count n := List.one_le_count_iff.symm
  have hrepeated : n ∈ repeatsFrom [] names ↔ 2 ≤ names.count n := by
    simp [mem_repeatsFrom_iff]
  rw [repeatedNames, repeatedNames, repeatsFrom_concat]
  by_cases hn : n ∈ names
  · have hone := hmem.mp hn
    rw [if_pos (.inr hn), eraseDups_concat]
    by_cases hold : n ∈ repeatsFrom [] names
    · have htwo := hrepeated.mp hold
      rw [if_pos (by simpa using hold), if_neg (by omega), List.append_nil]
    · have htwo := mt hrepeated.mpr hold
      rw [if_neg (by simpa using hold), if_pos (by omega)]
  · rw [if_neg (by simpa using hn), if_neg (by rw [List.count_eq_zero.mpr hn]; decide),
      List.append_nil, List.append_nil]

/-- The check reports the shared names, in the order of the second members that have them. -/
theorem repeatedNames_eq_secondNames (counts : Member → Bool) (members : List Member) :
    repeatedNames ((members.filter counts).map (·.name)) = secondNames counts members := by
  induction members using List.reverseRecOn with
  | nil => rfl
  | append_singleton members m ih =>
    rw [secondNames_concat, List.filter_append, List.map_append, ← ih]
    cases hm : counts m with
    | false => simp [hm]
    | true =>
      rw [List.filter_cons_of_pos hm, List.filter_nil, List.map_singleton, repeatedNames_concat,
        count_map_name]
      simp

theorem mem_repeatedNames_iff {names : List Text} {n : Text} :
    n ∈ repeatedNames names ↔ 2 ≤ names.count n := by
  simp [repeatedNames, List.mem_eraseDups, mem_repeatsFrom_iff]

theorem nodup_repeatedNames (names : List Text) : (repeatedNames names).Nodup := by
  induction names using List.reverseRecOn with
  | nil => exact List.nodup_nil
  | append_singleton names n ih =>
    rw [repeatedNames_concat]
    split
    · rename_i hone
      have hnew : n ∉ repeatedNames names := mt mem_repeatedNames_iff.mp (by omega)
      refine List.nodup_append.mpr ⟨ih, List.nodup_singleton n, fun m hm k hk hsame => ?_⟩
      exact hnew (List.mem_singleton.mp hk ▸ hsame ▸ hm)
    · simpa using ih

end Container

/-! ## Refusals -/

/-- A result that is a failure exactly if a name is shared, and then lists each shared name once, in
the order of the second members that have them. -/
structure RefusesShared (counts : Member → Bool) (members : List Member)
    (result : Except DuplicateMembers Report) : Prop where
  fails_iff : (∃ e, result = .error e) ↔ ∃ n, IsShared counts members n
  mem_iff : ∀ e, result = .error e → ∀ n, n ∈ e.names ↔ IsShared counts members n
  nodup : ∀ e, result = .error e → e.names.Nodup
  inOrder : ∀ e, result = .error e → e.names = secondNames counts members

namespace Selection

/-- The names that a selection leaves out. -/
def excluded : Selection → List Text
  | .blacklist names => names
  | .all | .whitelist _ | .groups _ => []

/-- Whether a selection asks for a member. -/
def asksFor (s : Selection) (m : Member) : Bool :=
  match s with
  | .all => !m.isPrivate
  | .blacklist names => !m.isPrivate && !names.contains m.name
  | .whitelist names => names.contains m.name
  | .groups gs => gs.any (·.2.contains m.name)

theorem asksFor_eq (s : Selection) (m : Member) :
    s.asksFor m = (Container.mustBeUnique s m && !s.excluded.contains m.name) := by
  cases s with
  | all | blacklist => simp [asksFor, Container.mustBeUnique, excluded]
  | whitelist names | groups gs =>
    rw [Bool.eq_iff_iff]
    simp [asksFor, Container.mustBeUnique, excluded, requested, List.mem_eraseDups]

end Selection

/-- A name is shared by members that are asked for exactly if it is shared at all, as far as the
check goes, and not left out. -/
theorem isShared_asksFor_iff {s : Selection} {members : List Member} {n : Text} :
    IsShared s.asksFor members n ↔
      IsShared (Container.mustBeUnique s) members n ∧ n ∉ s.excluded := by
  simp only [IsShared, Selection.asksFor_eq, Bool.and_eq_true, Bool.not_eq_true',
    List.contains_eq_mem, decide_eq_false_iff_not]
  constructor
  · rintro ⟨i, j, u, v, hij, hu, hv, ⟨⟨hu1, hu2⟩, rfl⟩, ⟨hv1, hv2⟩, hname⟩
    exact ⟨⟨i, j, u, v, hij, hu, hv, ⟨hu1, rfl⟩, hv1, hname⟩, hu2⟩
  · rintro ⟨⟨i, j, u, v, hij, hu, hv, ⟨hu1, rfl⟩, hv1, hname⟩, hkept⟩
    exact ⟨i, j, u, v, hij, hu, hv, ⟨⟨hu1, hkept⟩, rfl⟩, ⟨hv1, hname ▸ hkept⟩, hname⟩

theorem secondNames_asksFor (s : Selection) (members : List Member) :
    secondNames s.asksFor members =
      (secondNames (Container.mustBeUnique s) members).filter fun n => !s.excluded.contains n := by
  rw [secondNames, secondNames, List.filter_map, List.filter_filter]
  congr 1
  refine List.filter_congr fun x _ => ?_
  simp only [Selection.asksFor_eq, Function.comp_apply]
  cases hx : s.excluded.contains x.1.name with
  | true => simp
  | false =>
    -- No member of the same name is left out either.
    have hcount : (members.take x.2).countP (fun m =>
        (Container.mustBeUnique s m && !s.excluded.contains m.name) && m.name == x.1.name) =
          (members.take x.2).countP fun m =>
            Container.mustBeUnique s m && m.name == x.1.name := by
      refine List.countP_congr fun m _ => ?_
      by_cases hm : m.name = x.1.name
      · simp [hm, List.contains_eq_mem] at hx ⊢
        simp [hx]
      · simp [hm]
    rw [hcount]
    simp

namespace Container

theorem refusesShared_document (c : Container) (a : Assembler) (o : ContainerOptions) :
    RefusesShared (mustBeUnique o.selection) c.members (c.document a o) := by
  have hmem : ∀ n, n ∈ repeatedNames ((c.members.filter (mustBeUnique o.selection)).map (·.name)) ↔
      IsShared (mustBeUnique o.selection) c.members n := fun n => by
    rw [mem_repeatedNames_iff, count_map_name, isShared_iff]
  have hnodup := nodup_repeatedNames ((c.members.filter (mustBeUnique o.selection)).map (·.name))
  have horder := repeatedNames_eq_secondNames (mustBeUnique o.selection) c.members
  unfold document
  split
  · rename_i hnone
    rw [hnone] at hmem
    refine ⟨⟨?_, ?_⟩, ?_, ?_, ?_⟩
    · rintro ⟨e, he⟩
      cases he
    · rintro ⟨n, hn⟩
      exact absurd ((hmem n).mpr hn) List.not_mem_nil
    all_goals
      intro e he
      cases he
  · rename_i hsome
    refine ⟨⟨fun _ => ?_, fun _ => ⟨_, rfl⟩⟩, ?_, ?_, ?_⟩
    · obtain ⟨n, hn⟩ := List.exists_mem_of_ne_nil _ hsome
      exact ⟨n, (hmem n).mp hn⟩
    · rintro e ⟨⟩
      exact hmem
    · rintro e ⟨⟩
      exact hnodup
    · rintro e ⟨⟩
      exact horder

/-- **When documentation is refused.** It is refused exactly if two members that the check counts
have the same name, and then for all such names, each once, in the order of their second members.
The check counts the members that are asked for, and those that are excluded as well. So it refuses
the names of members that are asked for, and no others, exactly if no name that is excluded is
shared by public members. -/
theorem document_refuses_shared (c : Container) (a : Assembler) (o : ContainerOptions) :
    RefusesShared (mustBeUnique o.selection) c.members (c.document a o) ∧
      (RefusesShared o.selection.asksFor c.members (c.document a o) ↔
        ∀ n ∈ o.selection.excluded, ¬ IsShared (!·.isPrivate) c.members n) := by
  have hchecked := c.refusesShared_document a o
  have hpublic : ∀ n ∈ o.selection.excluded,
      (IsShared (!·.isPrivate) c.members n ↔ IsShared (mustBeUnique o.selection) c.members n) := by
    cases o.selection with
    | blacklist => exact fun n _ => Iff.rfl
    | all | whitelist | groups => exact fun n hn => absurd hn List.not_mem_nil
  refine ⟨hchecked, fun hasked n hn hshared => ?_, fun hnone => ?_⟩
  · -- A shared name that is left out is reported all the same.
    have hshared := (hpublic n hn).mp hshared
    obtain ⟨e, he⟩ := hchecked.fails_iff.mpr ⟨n, hshared⟩
    have hlisted := (hchecked.mem_iff e he n).mpr hshared
    exact (isShared_asksFor_iff.mp ((hasked.mem_iff e he n).mp hlisted)).2 hn
  · have hkept : ∀ n, IsShared (mustBeUnique o.selection) c.members n → n ∉ o.selection.excluded :=
      fun n hshared hn => hnone n hn ((hpublic n hn).mpr hshared)
    have hsame : ∀ n, IsShared (mustBeUnique o.selection) c.members n ↔
        IsShared o.selection.asksFor c.members n := fun n =>
      ⟨fun h => isShared_asksFor_iff.mpr ⟨h, hkept n h⟩, fun h => (isShared_asksFor_iff.mp h).1⟩
    refine ⟨?_, fun e he n => ?_, hchecked.nodup, fun e he => ?_⟩
    · rw [hchecked.fails_iff]
      exact exists_congr hsame
    · rw [hchecked.mem_iff e he n, hsame]
    · rw [secondNames_asksFor, ← hchecked.inOrder e he, eq_comm, List.filter_eq_self]
      intro n hn
      simpa using hkept n ((hchecked.mem_iff e he n).mp hn)

/-- Two members of one name, which is excluded: the one member that is asked for is not documented,
although its name is its own. -/
theorem document_refuses_excluded :
    let load : Member := { name := "load".toList, kind := .callable }
    let save : Member := { name := "save".toList, kind := .callable }
    let c : Container := { name := "pkg".toList, members := [load, save, load] }
    let a : Assembler := ⟨⟨.rst, .markdown, .pycode⟩, {}⟩
    let o : ContainerOptions := { selection := .blacklist ["load".toList] }
    c.members.filter o.selection.asksFor = [save] ∧
      (∀ n, ¬ IsShared o.selection.asksFor c.members n) ∧
      c.document a o = .error ⟨["load".toList]⟩ ∧
      ¬ RefusesShared o.selection.asksFor c.members (c.document a o) := by
  intro load save c a o
  have hnone : ∀ n, ¬ IsShared o.selection.asksFor c.members n := by
    intro n hn
    have hone : c.members.countP o.selection.asksFor = 1 := rfl
    have hfew := List.countP_mono_left (l := c.members)
      (p := fun m => o.selection.asksFor m && m.name == n) (q := o.selection.asksFor)
      fun m _ hm => (Bool.and_eq_true_iff.mp hm).1
    have htwo := isShared_iff.mp hn
    omega
  have hrefused : c.document a o = .error ⟨["load".toList]⟩ := rfl
  refine ⟨rfl, hnone, hrefused, fun h => ?_⟩
  obtain ⟨n, hn⟩ := h.fails_iff.mp ⟨_, hrefused⟩
  exact hnone n hn

end Container

end ApiDocs
