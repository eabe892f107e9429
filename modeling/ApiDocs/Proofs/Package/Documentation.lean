import ApiDocs.Package.Report
import ApiDocs.Proofs.Page.Chunks

/-!
# The text of documentation

The documentation of a container is spelled out: which members a block documents, what stands
between its sections, and which names were asked for in vain. The members of a block are given by
their places in the container and not by the way they are collected.

* `firstsBy`: the elements of a list whose key no earlier element has.
* `Container.publicMembers`, `Container.membersCalled`: the members that a selection asks for.
* `Container.pageText`: the text of a block.
* `Container.document_eq_ok`: the documentation of a container.
-/

namespace ApiDocs

/-! ## First occurrences -/

section Firsts

variable {α κ : Type} [BEq κ]

/-- The elements of a list whose key no earlier element has. -/
def firstsBy (key : α → κ) (l : List α) : List α :=
  (l.zipIdx.filter fun x => !((l.take x.2).map key).contains (key x.1)).map (·.1)

/-- The elements of a list whose key is not among `seen` and that no earlier element has. -/
def firstsFrom (key : α → κ) (seen : List κ) (l : List α) : List α :=
  (l.zipIdx.filter fun x => !(seen ++ (l.take x.2).map key).contains (key x.1)).map (·.1)

theorem firstsFrom_nil (key : α → κ) (l : List α) : firstsFrom key [] l = firstsBy key l := rfl

variable [LawfulBEq κ]

theorem firstsFrom_cons (key : α → κ) (seen : List κ) (a : α) (l : List α) :
    firstsFrom key seen (a :: l) =
      if seen.contains (key a) then firstsFrom key seen l
      else a :: firstsFrom key (key a :: seen) l := by
  have hrest : ((l.zipIdx 1).filter fun x =>
      !(seen ++ ((a :: l).take x.2).map key).contains (key x.1)).map (·.1) =
        firstsFrom key (key a :: seen) l := by
    rw [firstsFrom, List.zipIdx_succ, List.filter_map, List.map_map]
    congr 1
    refine List.filter_congr fun x _ => ?_
    by_cases hx : key x.1 = key a <;> simp [hx]
  have hseen : seen.contains (key a) = true →
      firstsFrom key (key a :: seen) l = firstsFrom key seen l := by
    intro hmem
    rw [firstsFrom, firstsFrom]
    congr 1
    refine List.filter_congr fun x _ => ?_
    by_cases hx : key x.1 = key a
    · simp_all
    · simp [hx]
  rw [firstsFrom, List.zipIdx_cons, List.filter_cons, Nat.zero_add]
  cases hmem : seen.contains (key a) with
  | true =>
    rw [if_neg (by simpa using hmem), if_pos rfl, ← hseen hmem, ← hrest]
  | false =>
    rw [if_pos (by simpa using hmem), if_neg (by simp), List.map_cons, hrest]

/-- Erasing repetitions leaves first occurrences. -/
theorem firstsFrom_id (seen l : List κ) :
    firstsFrom id seen l = (l.filter fun a => !seen.contains a).eraseDups := by
  induction l generalizing seen with
  | nil => rfl
  | cons a l ih =>
    rw [firstsFrom_cons, List.filter_cons, id_eq]
    cases hmem : seen.contains a with
    | true => rw [if_pos rfl, if_neg (by simp), ih]
    | false =>
      rw [if_neg (by simp), if_pos (by simp), List.eraseDups_cons, ih, List.filter_filter]
      congr 3
      funext b
      simp

theorem eraseDups_eq_firstsBy (l : List κ) : l.eraseDups = firstsBy id l := by
  rw [← firstsFrom_nil, firstsFrom_id]
  simp

/-- One more element is kept if it is new. -/
theorem eraseDups_concat (l : List κ) (a : κ) :
    (l ++ [a]).eraseDups = if l.contains a then l.eraseDups else l.eraseDups ++ [a] := by
  rw [List.eraseDups_append, List.removeAll]
  by_cases hmem : a ∈ l
  · simp [hmem]
  · simp [hmem, List.eraseDups_cons]

theorem filter_eraseDups (p : κ → Bool) (l : List κ) :
    l.eraseDups.filter p = (l.filter p).eraseDups := by
  induction l using List.reverseRecOn with
  | nil => rfl
  | append_singleton l a ih =>
    rw [eraseDups_concat, List.filter_append]
    cases hp : p a with
    | true =>
      have hcontains : (l.filter p).contains a = l.contains a := by
        rw [Bool.eq_iff_iff]
        simp [hp]
      rw [List.filter_cons_of_pos hp, List.filter_nil, eraseDups_concat, hcontains, ← ih]
      split <;> simp [hp]
    | false =>
      rw [List.filter_cons_of_neg (by simp [hp]), List.filter_nil, List.append_nil, ← ih]
      split <;> simp [hp]

end Firsts

/-! ## Names -/

namespace Container

theorem nodup_of_repeatsFrom {seen names : List Text} (h : repeatsFrom seen names = []) :
    names.Nodup ∧ ∀ n ∈ names, n ∉ seen := by
  induction names generalizing seen with
  | nil => simp
  | cons n names ih =>
    rw [repeatsFrom] at h
    split at h
    · cases h
    · rename_i hn
      obtain ⟨hnodup, hseen⟩ := ih h
      have hfresh : n ∉ names := fun hmem => hseen n hmem List.mem_cons_self
      refine ⟨List.nodup_cons.mpr ⟨hfresh, hnodup⟩, fun x hx => ?_⟩
      rcases List.mem_cons.mp hx with rfl | hx
      · simpa using hn
      · exact fun hmem => hseen x hx (List.mem_cons_of_mem _ hmem)

theorem nodup_of_repeatedNames {names : List Text} (h : repeatedNames names = []) :
    names.Nodup := by
  rw [repeatedNames] at h
  cases hr : repeatsFrom [] names with
  | nil => exact (nodup_of_repeatsFrom hr).1
  | cons n rest =>
    rw [hr, List.eraseDups_cons] at h
    cases h

/-- A member is the only one of its name if the names of all that could be meant differ. -/
theorem length_filter_name_le {members : List Member} {p : Member → Bool}
    (h : ((members.filter p).map (·.name)).Nodup) {n : Text}
    (hp : ∀ m : Member, m.name = n → p m = true) :
    (members.filter (·.name == n)).length ≤ 1 := by
  have hsub : (members.filter (·.name == n)).Sublist (members.filter p) := by
    refine List.monotone_filter_right members fun m hm => ?_
    exact hp m (by simpa using hm)
  have hnames : (members.filter (·.name == n)).map (·.name) =
      List.replicate (members.filter (·.name == n)).length n := by
    refine List.eq_replicate_iff.mpr ⟨List.length_map _, fun x hx => ?_⟩
    obtain ⟨m, hm, rfl⟩ := List.mem_map.mp hx
    simpa using (List.mem_filter.mp hm).2
  have hnodup := h.sublist (hsub.map _)
  rw [hnames] at hnodup
  exact List.nodup_replicate.mp hnodup

theorem toList_find? {α : Type} {p : α → Bool} {l : List α} (h : (l.filter p).length ≤ 1) :
    (l.find? p).toList = l.filter p := by
  rw [← List.head?_filter]
  match hl : l.filter p, h with
  | [], _ => rfl
  | [a], _ => rfl

end Container

/-! ## The documentation, spelled out -/

/-- The names that a selection asks for, as they are given. -/
def Selection.asked : Selection → List Text
  | .all | .blacklist _ => []
  | .whitelist names => names
  | .groups gs => gs.flatMap (·.2)

theorem Selection.requested_eq (s : Selection) : s.requested = s.asked.eraseDups := by
  cases s <;> rfl

namespace Container

/-- The public members that are not excluded: types first, then all others, each part in the
order of the container. -/
def publicMembers (c : Container) (excluded : List Text) : List Member :=
  (c.members.filter fun m => m.kind == .type && !m.isPrivate && !excluded.contains m.name) ++
    c.members.filter fun m => m.kind != .type && !m.isPrivate && !excluded.contains m.name

/-- The members of the given names, name by name. -/
def membersCalled (c : Container) (names : List Text) : List Member :=
  names.flatMap fun n => c.members.filter (·.name == n)

/-- The title line and, below a blank line, the trimmed docstring, unless it is to be left out,
absent or blank. -/
def preambleText (c : Container) (o : ContainerOptions) : Text :=
  "# Package ".toList ++ escapeHeading c.name ++ " Documentation".toList ++
    match c.doc with
    | some doc =>
      if o.skipDocstring = false ∧ Text.blank doc = false then "\n\n".toList ++ Text.trim doc
      else []
    | none => []

/-- The text of a block on the given members: the preamble, each member of which no earlier one is
the same thing, and the line on versions unless it is to be left out. -/
def pageText (c : Container) (a : Assembler) (o : ContainerOptions) (members : List Member) :
    Text :=
  "\n\n---\n\n".toList.intercalate
      ([c.preambleText o] ++
        (firstsBy c.identityOf members).map
          (fun m => "\n\n".toList.intercalate (a.documentMember m)) ++
        if o.omitVersion then [] else [c.versionFooter]) ++
    "\n".toList

/-! ## Members -/

theorem uniqueFrom_eq (c : Container) (seen : List Text) (members : List Member) :
    c.uniqueFrom seen members = firstsFrom c.identityOf seen members := by
  induction members generalizing seen with
  | nil => rfl
  | cons m members ih =>
    rw [uniqueFrom, firstsFrom_cons]
    simp only [ih]

theorem selectedByDefault_eq (c : Container) (excluded : List Text) :
    c.selectedByDefault excluded = c.publicMembers excluded := by
  simp only [selectedByDefault, publicMembers, List.filter_filter, Bool.and_assoc]

/-- Where no name is ambiguous, the members that are looked up by name are all of that name. -/
theorem named_eq (c : Container) {p : Member → Bool}
    (h : ((c.members.filter p).map (·.name)).Nodup) {names : List Text}
    (hp : ∀ m : Member, m.name ∈ names → p m = true) : c.named names = c.membersCalled names := by
  rw [named, membersCalled, List.filterMap_eq_flatMap_toList]
  refine List.flatMap_congr fun n hn => ?_
  exact toList_find? (length_filter_name_le h fun m hm => hp m (hm ▸ hn))

theorem mustBeUnique_of_mem_asked {s : Selection} {m : Member} (h : m.name ∈ s.asked) :
    mustBeUnique s m = true := by
  have hrequested : s.requested.contains m.name = true := by
    rw [List.contains_iff_mem, s.requested_eq]
    exact List.mem_eraseDups.mpr h
  cases s with
  | all | blacklist names => simp [Selection.asked] at h
  | whitelist names => exact hrequested
  | groups gs => exact hrequested

/-! ## Blocks -/

theorem preamble_eq (c : Container) (o : ContainerOptions) : c.preamble o = c.preambleText o := by
  unfold preamble preambleText
  cases c.doc with
  | none => simp
  | some doc =>
    cases hskip : o.skipDocstring with
    | true => simp
    | false => cases hb : Text.blank doc <;> simp [hb, List.intercalate]

theorem isChunk_preambleText (c : Container) (o : ContainerOptions) :
    Markdown.IsChunk (c.preambleText o) := by
  have htitle : Markdown.IsChunk " Documentation".toList := ⟨by decide, by decide⟩
  unfold preambleText
  split
  · rename_i doc hdoc
    split
    · rename_i hshown
      have htext : Text.trim doc ≠ [] := by
        rw [ne_eq, Text.trim_eq_nil_iff, hshown.2]
        decide
      have hchunk := Markdown.isChunk_of_trimmed (Text.trim_trim doc) htext
      exact (hchunk.append_left _).append_left _
    · rw [List.append_nil]
      exact htitle.append_left _
  · rw [List.append_nil]
    exact htitle.append_left _

theorem isChunk_versionFooter (c : Container) : Markdown.IsChunk c.versionFooter := by
  have hstar : Markdown.IsChunk "*".toList := ⟨by decide, by decide⟩
  exact hstar.append_left _

/-- **The text of a block**: its sections, with a line between any two. -/
theorem block_eq (c : Container) (a : Assembler) (o : ContainerOptions) (members : List Member) :
    c.block a o members = c.pageText a o members := by
  have hchunks : ∀ s ∈ c.sections a o members, Markdown.IsChunk s := by
    intro s hs
    simp only [sections, List.mem_append, List.mem_map] at hs
    rcases hs with (hs | ⟨m, -, rfl⟩) | hs
    · rw [List.mem_singleton.mp hs, preamble_eq]
      exact c.isChunk_preambleText o
    · exact a.isChunk_memberText m
    · split at hs
      · simp at hs
      · rw [List.mem_singleton.mp hs]
        exact c.isChunk_versionFooter
  rw [block, Markdown.toMarkdown_intersperse (by simp [sections]) hchunks, pageText, sections,
    preamble_eq, uniqueFrom_eq, firstsFrom_nil]

/-! ## Reports -/

/-- **The documentation of a container.** Every block is the text of the members that the selection
asks for in it: the public ones that are not excluded, types first, or those of the given names in
the order of the names. The names that were asked for in vain are those of no member, each once,
in the order in which they were first asked for. -/
theorem document_eq_ok {c : Container} {a : Assembler} {o : ContainerOptions} {r : Report}
    (h : c.document a o = .ok r) :
    r.docs =
        (match o.selection with
        | .all => .single (c.pageText a o (c.publicMembers []))
        | .blacklist excluded => .single (c.pageText a o (c.publicMembers excluded))
        | .whitelist names => .single (c.pageText a o (c.membersCalled names))
        | .groups gs => .grouped (gs.map fun g => (g.1, c.pageText a o (c.membersCalled g.2)))) ∧
      r.missing =
        firstsBy id (o.selection.asked.filter fun n => c.members.all (·.name != n)) := by
  unfold document at h
  split at h
  · rename_i hnone
    cases h
    have hnodup := nodup_of_repeatedNames hnone
    refine ⟨?_, ?_⟩
    · cases hs : o.selection with
      | all => simp only [docs, hs, block_eq, selectedByDefault_eq]
      | blacklist excluded => simp only [docs, hs, block_eq, selectedByDefault_eq]
      | whitelist names =>
        have hnamed : c.named names = c.membersCalled names :=
          c.named_eq hnodup fun m hm => mustBeUnique_of_mem_asked (by rw [hs]; exact hm)
        simp only [docs, hs, block_eq, hnamed]
      | groups gs =>
        have hnamed : ∀ g ∈ gs, c.named g.2 = c.membersCalled g.2 := fun g hg =>
          c.named_eq hnodup fun m hm =>
            mustBeUnique_of_mem_asked (by rw [hs]; exact List.mem_flatMap.mpr ⟨g, hg, hm⟩)
        simp only [docs, hs, block_eq]
        congr 1
        refine List.map_congr_left fun g hg => ?_
        rw [hnamed g hg]
    · have hmember : ∀ n, (c.member? n).isNone = c.members.all (·.name != n) := by
        intro n
        rw [member?, Bool.eq_iff_iff, Option.isNone_iff_eq_none, List.find?_eq_none]
        simp
      simp only [hmember, o.selection.requested_eq]
      rw [filter_eraseDups, eraseDups_eq_firstsBy]
  · cases h

/-- Of a callable that is asked for under two names only the first is documented; a private one
may be asked for, and a name of no member is reported once. -/
theorem document_eq_ok_whitelist :
    let f : Member := { name := "f".toList, kind := .callable }
    let g : Member := { name := "g".toList, kind := .callable, origin := some "f".toList }
    let hidden : Member := { name := "_h".toList, kind := .property }
    let c : Container := { name := "pkg".toList, members := [f, g, hidden] }
    let a : Assembler := ⟨⟨.rst, .markdown, .pycode⟩, {}⟩
    let o : ContainerOptions :=
      { selection := .whitelist ["x".toList, "g".toList, "_h".toList, "f".toList, "x".toList] }
    c.document a o = .ok ⟨.single (c.pageText a o [g, hidden]), ["x".toList]⟩ := by
  intro f g hidden c a o
  have hok : c.document a o = .ok ⟨c.docs a o, ["x".toList]⟩ := rfl
  have hfirsts : firstsBy c.identityOf
      (c.membersCalled ["x".toList, "g".toList, "_h".toList, "f".toList, "x".toList]) =
        firstsBy c.identityOf [g, hidden] := rfl
  have hdocs : c.docs a o = .single (c.pageText a o [g, hidden]) := by
    refine (document_eq_ok hok).1.trans ?_
    simp only [o, pageText, hfirsts]
  rw [hok, hdocs]

end Container

end ApiDocs
