import ApiDocs.Proofs.Package.Documentation

/-!
# Selections by name

Whatever a selection asks for can be asked for by name. This rests on the check for ambiguous
names: when documentation succeeds, no two members that could be meant share a name, and so
looking a member up by its name finds that member and no other.

* `Container.repeatedNames_eq_nil_iff`: when no name is ambiguous.
* `Container.document_only`: documentation of named members succeeds if no name is ambiguous.
* `Container.named_map_name`: public members are found again by their names.
* `Container.document_by_name`: every selection agrees with selections by name.
-/

namespace ApiDocs

/-! ## Names without repetitions -/

section Names

variable {κ : Type} [BEq κ] [LawfulBEq κ]

theorem eraseDups_eraseDups (l : List κ) : l.eraseDups.eraseDups = l.eraseDups := by
  induction l using List.reverseRecOn with
  | nil => rfl
  | append_singleton l a ih =>
    rw [eraseDups_concat]
    split
    · exact ih
    · rename_i hnew
      rw [eraseDups_concat, ih, if_neg (by simpa using hnew)]

/-- Repetitions within the parts of a list may be left out first. -/
theorem eraseDups_flatMap_eraseDups {α : Type} (f : α → List κ) (l : List α) :
    (l.flatMap fun a => (f a).eraseDups).eraseDups = (l.flatMap f).eraseDups := by
  induction l using List.reverseRecOn with
  | nil => rfl
  | append_singleton l a ih =>
    have hremove : (f a).eraseDups.removeAll (l.flatMap fun b => (f b).eraseDups) =
        ((f a).removeAll (l.flatMap f)).eraseDups := by
      rw [List.removeAll, filter_eraseDups, List.removeAll]
      congr 1
      refine List.filter_congr fun x _ => ?_
      rw [Bool.eq_iff_iff]
      simp [List.mem_flatMap, List.mem_eraseDups]
    rw [List.flatMap_append, List.flatMap_append, List.flatMap_singleton, List.flatMap_singleton,
      List.eraseDups_append, List.eraseDups_append, ih, hremove, eraseDups_eraseDups]

end Names

namespace Container

theorem repeatsFrom_eq_nil {seen names : List Text} (hnodup : names.Nodup)
    (hseen : ∀ n ∈ names, n ∉ seen) : repeatsFrom seen names = [] := by
  induction names generalizing seen with
  | nil => rfl
  | cons n names ih =>
    obtain ⟨hfresh, hnames⟩ := List.nodup_cons.mp hnodup
    have hn : seen.contains n = false := by simpa using hseen n List.mem_cons_self
    rw [repeatsFrom, hn, if_neg (by simp)]
    refine ih hnames fun m hm hmem => ?_
    rcases List.mem_cons.mp hmem with rfl | hmem
    · exact hfresh hm
    · exact hseen m (List.mem_cons_of_mem _ hm) hmem

/-- No name is reported as ambiguous exactly if no name occurs twice. -/
theorem repeatedNames_eq_nil_iff {names : List Text} : repeatedNames names = [] ↔ names.Nodup := by
  constructor
  · exact nodup_of_repeatedNames
  · intro h
    rw [repeatedNames, repeatsFrom_eq_nil h (by simp), List.eraseDups_nil]

end Container

/-- The options with another selection: the members of the given names. -/
def ContainerOptions.only (o : ContainerOptions) (names : List Text) : ContainerOptions :=
  { o with selection := .whitelist names }

namespace Container

variable {c : Container} {p : Member → Bool}

/-! ## Members by name -/

/-- Documentation succeeds exactly if the members that could be meant have different names. -/
theorem document_eq_ok_iff {a : Assembler} {o : ContainerOptions} {r : Report} :
    c.document a o = .ok r ↔
      ((c.members.filter (mustBeUnique o.selection)).map (·.name)).Nodup ∧
        r = ⟨c.docs a o, o.selection.requested.filter (c.member? · |>.isNone)⟩ := by
  unfold document
  split
  · rename_i hnone
    simp [repeatedNames_eq_nil_iff.mp hnone, eq_comm]
  · rename_i hsome
    simp [mt repeatedNames_eq_nil_iff.mpr hsome]

/-- Members can be asked for by name if all that could be meant have different names. -/
theorem document_only (a : Assembler) (o : ContainerOptions)
    (h : ((c.members.filter p).map (·.name)).Nodup) {names : List Text}
    (hp : ∀ m ∈ c.members, m.name ∈ names → p m = true) :
    c.document a (o.only names) =
      .ok ⟨.single (c.block a o (c.named names)),
        (names.filter (c.member? · |>.isNone)).eraseDups⟩ := by
  rw [document_eq_ok_iff]
  refine ⟨?_, ?_⟩
  · refine h.sublist (List.Sublist.map _ ?_)
    have hsub : c.members.filter (mustBeUnique (.whitelist names)) =
        (c.members.filter p).filter (mustBeUnique (.whitelist names)) := by
      rw [List.filter_filter]
      refine List.filter_congr fun m hm => ?_
      cases hu : mustBeUnique (.whitelist names) m with
      | false => rfl
      | true =>
        have hmem : m.name ∈ names := by
          simpa [mustBeUnique, Selection.requested, List.mem_eraseDups] using hu
        simp [hp m hm hmem]
    exact hsub ▸ List.filter_sublist
  · rw [← filter_eraseDups]
    rfl

/-- A public member is found by its name, where public members have different names. -/
theorem member?_name (h : ((c.members.filter (!·.isPrivate)).map (·.name)).Nodup) {m : Member}
    (hm : m ∈ c.members) (hpublic : m.isPrivate = false) : c.member? m.name = some m := by
  have hp : ∀ x : Member, x.name = m.name → (!x.isPrivate) = true := by
    intro x hx
    simpa [Member.isPrivate, hx] using hpublic
  have hone := toList_find? (length_filter_name_le h hp)
  have hmem : m ∈ c.members.filter (·.name == m.name) := List.mem_filter.mpr ⟨hm, by simp⟩
  rw [← hone] at hmem
  exact Option.mem_toList.mp hmem

theorem mem_publicMembers {excluded : List Text} {m : Member} :
    m ∈ c.publicMembers excluded ↔
      m ∈ c.members ∧ m.isPrivate = false ∧ m.name ∉ excluded := by
  cases hk : m.kind == MemberKind.type <;>
    simp [publicMembers, hk, bne]

/-- Public members are found again by their names, in the same order. -/
theorem named_map_name (h : ((c.members.filter (!·.isPrivate)).map (·.name)).Nodup)
    (excluded : List Text) :
    c.named ((c.publicMembers excluded).map (·.name)) = c.publicMembers excluded := by
  rw [named, List.filterMap_map]
  conv_rhs => rw [← List.filterMap_some (l := c.publicMembers excluded)]
  refine List.filterMap_congr fun m hm => ?_
  obtain ⟨hmem, hpublic, -⟩ := mem_publicMembers.mp hm
  exact member?_name h hmem hpublic

/-- The names of public members without some of them are the names of those that are not
excluded. -/
theorem filter_map_name_publicMembers (c : Container) (excluded : List Text) :
    ((c.publicMembers []).map (·.name)).filter (fun n => !excluded.contains n) =
      (c.publicMembers excluded).map (·.name) := by
  rw [List.filter_map]
  congr 1
  simp only [publicMembers, List.filter_append, List.filter_filter]
  congr 1 <;>
  · refine List.filter_congr fun m _ => ?_
    simp [Bool.and_comm]

/-- Asking for the public members that are not excluded is asking for them by name. -/
theorem document_only_publicMembers (a : Assembler) (o : ContainerOptions)
    (h : ((c.members.filter (!·.isPrivate)).map (·.name)).Nodup) (excluded : List Text) :
    c.document a (o.only ((c.publicMembers excluded).map (·.name))) =
      .ok ⟨.single (c.block a o (c.selectedByDefault excluded)), []⟩ := by
  have hpublic : ∀ m ∈ c.members, m.name ∈ (c.publicMembers excluded).map (·.name) →
      (!m.isPrivate) = true := by
    intro m _ hm
    obtain ⟨x, hx, hname⟩ := List.mem_map.mp hm
    obtain ⟨-, hx, -⟩ := mem_publicMembers.mp hx
    simpa [Member.isPrivate, hname] using hx
  have hfound : ((c.publicMembers excluded).map (·.name)).filter (c.member? · |>.isNone) = [] := by
    rw [List.filter_eq_nil_iff]
    intro n hn
    obtain ⟨m, hm, rfl⟩ := List.mem_map.mp hn
    obtain ⟨hmem, hpriv, -⟩ := mem_publicMembers.mp hm
    simp [member?_name h hmem hpriv]
  rw [document_only a o h hpublic, hfound, named_map_name h, selectedByDefault_eq,
    List.eraseDups_nil]

/-! ## All selections -/

/-- **Every selection agrees with selections by name.** All public members, or all but some, are
documented as if their names had been listed, types first. Groups are documented as if each had
been asked for on its own, whatever the others are: the block of a group is the one block for its
names, and the names that were asked for in vain are those of each group in turn, without
repetitions. -/
theorem document_by_name {a : Assembler} {o : ContainerOptions} {r : Report}
    (h : c.document a o = .ok r) :
    match o.selection with
    | .all => c.document a (o.only ((c.publicMembers []).map (·.name))) = .ok r
    | .blacklist excluded =>
      c.document a (o.only
        (((c.publicMembers []).map (·.name)).filter fun n => !excluded.contains n)) = .ok r
    | .whitelist _ => True
    | .groups gs =>
      ∃ (page : List Text → Text) (missing : List Text → List Text),
        (∀ g ∈ gs, c.document a (o.only g.2) = .ok ⟨.single (page g.2), missing g.2⟩) ∧
          r.docs = .grouped (gs.map fun g => (g.1, page g.2)) ∧
          r.missing = firstsBy id (gs.flatMap fun g => missing g.2) := by
  obtain ⟨hnodup, rfl⟩ := document_eq_ok_iff.mp h
  cases hs : o.selection with
  | all =>
    rw [hs] at hnodup
    simp only [document_only_publicMembers a o hnodup, docs, hs]
    rfl
  | blacklist excluded =>
    rw [hs] at hnodup
    simp only [filter_map_name_publicMembers, document_only_publicMembers a o hnodup, docs, hs]
    rfl
  | whitelist names => trivial
  | groups gs =>
    rw [hs] at hnodup
    refine ⟨fun names => c.block a o (c.named names),
      fun names => (names.filter (c.member? · |>.isNone)).eraseDups, fun g hg => ?_, ?_, ?_⟩
    · refine document_only a o hnodup fun m _ hm => mustBeUnique_of_mem_asked ?_
      exact List.mem_flatMap.mpr ⟨g, hg, hm⟩
    · simp only [docs, hs]
    · rw [← eraseDups_eq_firstsBy, eraseDups_flatMap_eraseDups]
      simp only [Selection.requested]
      rw [filter_eraseDups, List.filter_flatMap]

/-- Two groups that share a member and a name of no member: each is documented as if it had been
asked for alone, and the shared name is reported once. -/
theorem document_by_name_overlapping :
    let f : Member := { name := "f".toList, kind := .callable }
    let t : Member := { name := "T".toList, kind := .type }
    let c : Container := { name := "pkg".toList, members := [f, t] }
    let a : Assembler := ⟨⟨.rst, .markdown, .pycode⟩, {}⟩
    let groups : List (Text × List Text) :=
      [("one".toList, ["f".toList, "x".toList]),
        ("two".toList, ["x".toList, "T".toList, "f".toList, "y".toList])]
    let o : ContainerOptions := { selection := .groups groups }
    c.document a o = .ok ⟨c.docs a o, ["x".toList, "y".toList]⟩ ∧
      ∃ (page : List Text → Text) (missing : List Text → List Text),
        (∀ g ∈ groups, c.document a (o.only g.2) = .ok ⟨.single (page g.2), missing g.2⟩) ∧
          c.docs a o = .grouped (groups.map fun g => (g.1, page g.2)) ∧
          ["x".toList, "y".toList] = firstsBy id (groups.flatMap fun g => missing g.2) := by
  intro f t c a groups o
  have hok : c.document a o = .ok ⟨c.docs a o, ["x".toList, "y".toList]⟩ := rfl
  exact ⟨hok, document_by_name hok⟩

end Container

end ApiDocs
