import ApiDocs.Package.Report

/-!
# Hidden members

A container without its private members, and without the members that its types hide, has the same
documentation as the container itself, as long as members are not asked for by name: the check for
ambiguous names, the choice of members, the search for other names of the same thing and the walk
through a type all pass hidden members over. So two containers that differ only in what is hidden
cannot be told apart by their documentation, nor by the failure to document them.

* `Assembler.visible`, `Container.visible`: members and containers without what is hidden.
* `Assembler.documentMember_visible`: the blocks of a member are those of what is visible of it.
* `Container.document_visible`: the same of a container.
* `Container.document_eq_of_visible_eq`: hidden members have no influence.
-/

namespace ApiDocs

/-! ## What is visible -/

namespace Assembler

mutual

/-- A member without the private and, unless these are included, the inherited members of types, at
every depth. -/
def visible (a : Assembler) : Member → Member
  | ⟨name, kind, doc, params, inherited, displayName, origin, members⟩ =>
    ⟨name, kind, doc, params, inherited, displayName, origin,
      a.visibleMembers (kind == .type) members⟩

/-- Members without what is hidden in them, and without those that are hidden themselves if they
are the members of a type. -/
def visibleMembers (a : Assembler) (ofType : Bool) : List Member → List Member
  | [] => []
  | m :: rest =>
    if ofType && (m.isPrivate || (m.inherited && !a.options.includeInherited)) then
      a.visibleMembers ofType rest
    else a.visible m :: a.visibleMembers ofType rest

end

end Assembler

/-- A container without its private members, and without what is hidden in the others. -/
def Container.visible (c : Container) (a : Assembler) : Container :=
  { c with members := (c.members.filter (!·.isPrivate)).map a.visible }

/-! ## Members -/

namespace Assembler

variable (a : Assembler)

section Fields

variable (m : Member)

@[simp] theorem visible_name : (a.visible m).name = m.name := by
  cases m
  rw [visible]

@[simp] theorem visible_kind : (a.visible m).kind = m.kind := by
  cases m
  rw [visible]

@[simp] theorem visible_doc : (a.visible m).doc = m.doc := by
  cases m
  rw [visible]

@[simp] theorem visible_params : (a.visible m).params = m.params := by
  cases m
  rw [visible]

@[simp] theorem visible_inherited : (a.visible m).inherited = m.inherited := by
  cases m
  rw [visible]

@[simp] theorem visible_displayName : (a.visible m).displayName = m.displayName := by
  cases m
  rw [visible]

@[simp] theorem visible_origin : (a.visible m).origin = m.origin := by
  cases m
  rw [visible]

@[simp] theorem isPrivate_visible : (a.visible m).isPrivate = m.isPrivate := by
  simp [Member.isPrivate]

@[simp] theorem effectiveName_visible : (a.visible m).effectiveName = m.effectiveName := by
  simp [Member.effectiveName]

@[simp] theorem hides_visible : a.hides (a.visible m) = a.hides m := by
  simp [hides]

end Fields

theorem callableChunks_visible (depth : UInt8) (name : Text) (m : Member) :
    a.callableChunks depth name (a.visible m) = a.callableChunks depth name m := by
  simp [callableChunks, Member.signature, Member.hasDeclaredParams]

theorem ownTypeChunks_visible (depth : UInt8) (m : Member) :
    a.ownTypeChunks depth (a.visible m) = a.ownTypeChunks depth m := by
  simp [ownTypeChunks]

mutual

theorem typeChunks_visible (depth : UInt8) :
    ∀ m : Member, a.typeChunks depth (a.visible m) = a.typeChunks depth m
  | ⟨name, kind, doc, params, inherited, displayName, origin, members⟩ => by
    have hown := a.ownTypeChunks_visible depth
      ⟨name, kind, doc, params, inherited, displayName, origin, members⟩
    rw [visible] at hown ⊢
    rw [typeChunks, typeChunks, hown, memberChunks_visibleMembers]

-- Whether hidden members have been removed or not: the walk passes them over.
theorem memberChunks_visibleMembers (depth : UInt8) (ofType : Bool) :
    ∀ ms : List Member, a.memberChunks depth (a.visibleMembers ofType ms) =
      a.memberChunks depth ms
  | [] => by rw [visibleMembers]
  | m :: rest => by
    have hrest := memberChunks_visibleMembers depth ofType rest
    rw [visibleMembers]
    change a.memberChunks depth (if ofType && a.hides m then _ else _) = _
    by_cases hgone : (ofType && a.hides m) = true
    · have hhidden : a.hides m = true := (Bool.and_eq_true_iff.mp hgone).2
      rw [if_pos hgone, hrest, memberChunks, if_pos hhidden, List.nil_append]
    · have hmember := typeChunks_visible depth m
      rw [if_neg hgone, memberChunks, memberChunks, hrest, hides_visible, visible_kind,
        effectiveName_visible, hmember, callableChunks_visible]

end

theorem anchor_visible (m : Member) : anchor (a.visible m) = anchor m := by
  unfold anchor
  rw [effectiveName_visible]

theorem documentMember_visible (m : Member) :
    a.documentMember (a.visible m) = a.documentMember m := by
  have htype : a.documentType false (a.visible m) = a.documentType false m := by
    simp only [documentType, anchor_visible, typeChunks_visible]
  have hcallable : a.documentCallable none (a.visible m) = a.documentCallable none m := by
    simp only [documentCallable, effectiveName_visible, callableChunks_visible]
  rw [documentMember, documentMember, visible_kind, htype, hcallable]

end Assembler

/-! ## Containers -/

namespace Container

variable (c : Container) (a : Assembler)

theorem identityOf_visible (m : Member) :
    (c.visible a).identityOf (a.visible m) = c.identityOf m := by
  simp [identityOf, visible]

theorem uniqueFrom_visible (seen : List Text) (members : List Member) :
    (c.visible a).uniqueFrom seen (members.map a.visible) =
      (c.uniqueFrom seen members).map a.visible := by
  induction members generalizing seen with
  | nil => rfl
  | cons m rest ih =>
    simp only [List.map_cons, uniqueFrom, identityOf_visible]
    split
    · exact ih seen
    · rw [ih, List.map_cons]

theorem block_visible (o : ContainerOptions) (members : List Member) :
    (c.visible a).block a o (members.map a.visible) = c.block a o members := by
  have hsections : (c.visible a).sections a o (members.map a.visible) = c.sections a o members := by
    rw [sections, sections, uniqueFrom_visible, List.map_map]
    simp only [Function.comp_def, Assembler.documentMember_visible]
    rfl
  rw [block, block, hsections]

theorem selectedByDefault_visible (excluded : List Text) :
    (c.visible a).selectedByDefault excluded = (c.selectedByDefault excluded).map a.visible := by
  have hkept : ∀ m : Member, (!m.isPrivate && (!m.isPrivate && !excluded.contains m.name)) =
      (!m.isPrivate && !excluded.contains m.name) := by
    intro m
    rw [← Bool.and_assoc, Bool.and_self]
  simp only [selectedByDefault, visible, List.filter_map, List.map_append, List.filter_filter,
    Function.comp_def, Assembler.isPrivate_visible, Assembler.visible_name,
    Assembler.visible_kind, Bool.and_comm _ (!Member.isPrivate _), hkept]

/-- Where members are not asked for by name, a container has the documentation of what is visible
of it. -/
theorem document_visible {o : ContainerOptions}
    (hs : o.selection = .all ∨ ∃ excluded, o.selection = .blacklist excluded) :
    (c.visible a).document a o = c.document a o := by
  have hchecked : mustBeUnique o.selection = fun m => !m.isPrivate := by
    rcases hs with hs | ⟨excluded, hs⟩ <;> rw [hs] <;> rfl
  have hnames : ((c.visible a).members.filter (mustBeUnique o.selection)).map (·.name) =
      (c.members.filter (mustBeUnique o.selection)).map (·.name) := by
    simp [visible, hchecked, List.filter_map, Function.comp_def]
  have hdocs : (c.visible a).docs a o = c.docs a o := by
    rcases hs with hs | ⟨excluded, hs⟩
    all_goals simp only [docs, hs, selectedByDefault_visible, block_visible]
  have hasked : o.selection.requested = [] := by
    rcases hs with hs | ⟨excluded, hs⟩ <;> rw [hs] <;> rfl
  rw [document, document, hnames, hdocs, hasked]
  rfl

/-- **Hidden members have no influence.** Two containers of which the same is visible have the same
documentation, or the same ambiguous names in the same order. -/
theorem document_eq_of_visible_eq {c d : Container} {a : Assembler} {o : ContainerOptions}
    (hvisible : c.visible a = d.visible a)
    (hs : o.selection = .all ∨ ∃ excluded, o.selection = .blacklist excluded) :
    c.document a o = d.document a o := by
  rw [← c.document_visible a hs, ← d.document_visible a hs, hvisible]

/-- Two private members of one name, the private and the inherited members of a type and of a type
inside it: none of them shows. -/
theorem document_eq_of_visible_eq_blacklist :
    let f : Member := { name := "f".toList, kind := .callable }
    let hidden : Member := { name := "_h".toList, kind := .property, doc := some "Secret.".toList }
    let parent : Member := { name := "p".toList, kind := .callable, inherited := true }
    let inner (ms : List Member) : Member := { name := "U".toList, kind := .type, members := ms }
    let outer (ms : List Member) : Member := { name := "T".toList, kind := .type, members := ms }
    let c : Container :=
      { name := "pkg".toList
        members := [hidden, outer [parent, inner [f, hidden], hidden, f], f, hidden] }
    let d : Container := { name := "pkg".toList, members := [outer [inner [f, parent], f], f] }
    let a : Assembler := ⟨⟨.rst, .markdown, .pycode⟩, {}⟩
    let o : ContainerOptions := { selection := .blacklist ["g".toList] }
    c.visible a = d.visible a ∧ c.document a o = d.document a o := by
  intro f hidden parent inner outer c d a o
  have hvisible : c.visible a = d.visible a := by
    simp [visible, c, d, outer, inner, f, hidden, parent, a, Assembler.visible,
      Assembler.visibleMembers, Member.isPrivate]
  exact ⟨hvisible, document_eq_of_visible_eq hvisible (.inr ⟨_, rfl⟩)⟩

end Container

end ApiDocs
