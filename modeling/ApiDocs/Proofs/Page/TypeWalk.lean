import ApiDocs.Page.Assembler
import ApiDocs.Proofs.Json.Nesting
import ApiDocs.Proofs.Markdown.Chunks

/-!
# The walk through a type

The documentation of a type is that of all its descendants that are visible, each with a heading one
level further down, in the order in which they stand in the tree. Here the descendants are listed
first, hidden ones included, each together with the members that lead to it; which of them are
visible is decided afterwards, from the list alone.

Depths of headings are bytes. They grow with every level, and only a heading brings its own depth
into the range of Markdown. In trees of the heights that manifests can have, no depth exceeds
a byte: the walk that gives up instead of exceeding it (`typeChunks?`) never does.

* `Member.descendants`: the members below a member, in order.
* `Assembler.isVisible`: which of them are documented.
* `Assembler.typeChunks_eq`: the blocks of a type, from the list of its descendants.
* `Assembler.typeChunks?_eq`: no depth exceeds a byte.
* `Assembler.documentType_preorder`: the documentation of a type.
-/

namespace ApiDocs

/-! ## Descendants -/

/-- A member below another one: the members on the way, from the outermost one on, and the member
itself. -/
structure Descendant where
  ancestors : List Member
  member : Member

namespace Descendant

/-- How far a member stands below the one from which it is counted. -/
def level (d : Descendant) : Nat := d.ancestors.length + 1

/-- The same member, counted from the one above `m`. -/
def under (m : Member) (d : Descendant) : Descendant := ⟨m :: d.ancestors, d.member⟩

end Descendant

namespace Member

mutual

/-- All members below a member: each before those below it, and in the order in which they are
declared. -/
def descendants : Member → List Descendant
  | ⟨_, _, _, _, _, _, _, members⟩ => preorder members

/-- Members, each with all members below it. -/
def preorder : List Member → List Descendant
  | [] => []
  | m :: rest => ⟨[], m⟩ :: (descendants m).map (.under m) ++ preorder rest

end

end Member

namespace Assembler

variable (a : Assembler)

/-- Whether a descendant is documented: all members on the way to it are types, and neither these nor
the member itself are private or, unless these are included, inherited. -/
def isVisible (d : Descendant) : Bool :=
  d.ancestors.all (·.kind == .type) &&
    (d.ancestors ++ [d.member]).all fun m =>
      !m.isPrivate && (a.options.includeInherited || !m.inherited)

theorem isVisible_child (m : Member) : a.isVisible ⟨[], m⟩ = !a.hides m := by
  cases hp : m.isPrivate <;> cases hi : m.inherited <;> simp [isVisible, hides, hp, hi]

theorem isVisible_under (m : Member) (d : Descendant) :
    a.isVisible (d.under m) = (m.kind == .type && !a.hides m && a.isVisible d) := by
  rw [← isVisible_child]
  simp only [isVisible, Descendant.under, List.cons_append, List.all_cons, List.nil_append,
    List.all_nil, Bool.and_true, Bool.true_and]
  cases m.kind == .type <;> cases d.ancestors.all (·.kind == .type) <;> simp

/-- The visible descendants that a member leads to, itself left out. -/
theorem filter_map_under (m : Member) (ds : List Descendant) :
    (ds.map (.under m)).filter a.isVisible =
      if m.kind == .type && !a.hides m then (ds.filter a.isVisible).map (.under m) else [] := by
  rw [List.filter_map]
  have hsame : a.isVisible ∘ Descendant.under m =
      fun d => (m.kind == .type && !a.hides m) && a.isVisible d :=
    funext fun d => a.isVisible_under m d
  rw [hsame]
  split
  · rename_i hshown
    simp [hshown]
  · rename_i hhidden
    simp [Bool.eq_false_iff.mpr hhidden]

/-! ## The blocks of one member -/

/-- A heading of some depth: six marks at most. -/
def headingText (depth : Nat) (title : Text) : Text :=
  List.replicate (min 6 depth) '#' ++ " ".toList ++
    Text.dropEndWhile (· == '\n') (escapeHeading title)

/-- A type without its members: its heading, and what its docstring says. -/
def typeText (depth : Nat) (m : Member) : List Text :=
  headingText depth ("Class ".toList ++ m.effectiveName) :: a.sectionChunks (a.read m.doc)

/-- A callable or a property: its heading, how it is used, and what its docstring says. -/
def callableText (depth : Nat) (m : Member) : List Text :=
  headingText depth m.effectiveName ::
    block [.code (some a.options.language) (m.signature m.effectiveName)] ::
    a.sectionChunks (a.read m.doc)

/-- A member of any kind without its own members. -/
def ownText (depth : Nat) (m : Member) : List Text :=
  match m.kind with
  | .type => a.typeText depth m
  | .callable | .property => a.callableText depth m

theorem toNat_clampDepth {depth : UInt8} (h : 1 ≤ depth.toNat) :
    (Node.clampDepth depth).toNat = min 6 depth.toNat := by
  unfold Node.clampDepth
  split
  · rename_i hlow
    rw [UInt8.lt_iff_toNat_lt] at hlow
    simp at hlow
    omega
  · split
    · rename_i hhigh
      rw [UInt8.lt_iff_toNat_lt] at hhigh
      simp at hhigh ⊢
      omega
    · rename_i hmiddle
      rw [UInt8.lt_iff_toNat_lt] at hmiddle
      simp at hmiddle
      omega

theorem headingBlock_eq {depth : UInt8} (h : 1 ≤ depth.toNat) (title : Text) :
    headingBlock depth title = headingText depth.toNat title := by
  have hwritten : Document.toMarkdown ⟨[.headingAt depth [.text (escapeHeading title)]]⟩ =
      List.replicate (min 6 depth.toNat) '#' ++ [' '] ++ (escapeHeading title ++ "\n".toList) := by
    rw [← toNat_clampDepth h]
    cases escapeHeading title <;>
      simp [Document.toMarkdown, Markdown.writeBlocks, Markdown.writeNode, Markdown.writeNodes,
        Node.headingAt, Markdown.Writer.start, Markdown.Writer.ensureNewline,
        Markdown.Writer.emit, Markdown.Writer.push]
  rw [headingBlock, block, hwritten, Text.dropEndWhile_append_of_not (by decide), headingText]
  congr 1
  exact rdropWhile_append_right (by simp) _

theorem ownTypeChunks_eq {depth : UInt8} (h : 1 ≤ depth.toNat) (m : Member) :
    a.ownTypeChunks depth m = a.typeText depth.toNat m := by
  rw [ownTypeChunks, typeText, headingBlock_eq h]

theorem callableChunks_eq {depth : UInt8} (h : 1 ≤ depth.toNat) (m : Member) :
    a.callableChunks depth m.effectiveName m = a.callableText depth.toNat m := by
  rw [callableChunks, callableText, headingBlock_eq h]

/-! ## The walk -/

theorem toNat_succ {depth : UInt8} (h : depth.toNat + 1 < 256) :
    (depth + 1).toNat = depth.toNat + 1 := by
  rw [UInt8.toNat_add]
  exact Nat.mod_eq_of_lt h

mutual

/-- The blocks of a type are its own and those of its visible descendants. -/
theorem typeChunks_eq (depth : UInt8) (hpos : 1 ≤ depth.toNat) :
    ∀ m : Member, depth.toNat + m.height < 255 →
      a.typeChunks depth m = a.typeText depth.toNat m ++
        (m.descendants.filter a.isVisible).flatMap
          fun d => a.ownText (depth.toNat + d.level) d.member
  | ⟨name, kind, doc, params, inherited, displayName, origin, members⟩, hheight => by
    rw [Member.height] at hheight
    have hsucc : (depth + 1).toNat = depth.toNat + 1 := toNat_succ (by omega)
    have hmembers := memberChunks_eq (depth + 1) (by omega) members (by omega)
    rw [typeChunks, ownTypeChunks_eq a hpos, hmembers, Member.descendants, hsucc]
    simp only [Descendant.level, Nat.add_assoc, Nat.add_comm 1]

-- Hidden members and the members of callables are in the list too, and filtered out of it.
theorem memberChunks_eq (depth : UInt8) (hpos : 1 ≤ depth.toNat) :
    ∀ ms : List Member, depth.toNat + Member.heightOfAll ms < 256 →
      a.memberChunks depth ms = ((Member.preorder ms).filter a.isVisible).flatMap
        fun d => a.ownText (depth.toNat + d.ancestors.length) d.member
  | [], _ => by
    rw [memberChunks, Member.preorder]
    rfl
  | m :: rest, hheight => by
    rw [Member.heightOfAll] at hheight
    have htype := typeChunks_eq depth hpos m (by omega)
    have hrest := memberChunks_eq depth hpos rest (by omega)
    rw [memberChunks, Member.preorder, List.filter_append, List.flatMap_append, ← hrest,
      List.filter_cons, isVisible_child, filter_map_under]
    congr 1
    cases hhidden : a.hides m with
    | true => simp
    | false =>
      cases hkind : m.kind with
      | type =>
        simp [htype, ownText, hkind, List.flatMap_map, Descendant.under, Descendant.level]
      | callable | property => simp [callableChunks_eq a hpos, ownText, hkind]

end

/-! ## Depths that fit in a byte -/

/-- The next depth, unless it exceeds a byte. -/
def deeper? (depth : UInt8) : Option UInt8 :=
  if depth.toNat + 1 < 256 then some (depth + 1) else none

mutual

/-- The blocks of a type, unless some depth on the way exceeds a byte. -/
def typeChunks? (a : Assembler) (depth : UInt8) : Member → Option (List Text)
  | m@⟨_, _, _, _, _, _, _, members⟩ =>
    (a.memberChunks? depth members).map (a.ownTypeChunks depth m ++ ·)

/-- The blocks of the members of a type, which has a heading of the given depth. -/
def memberChunks? (a : Assembler) (depth : UInt8) : List Member → Option (List Text)
  | [] => some []
  | m :: rest => do
    let shown ←
      if a.hides m then some []
      else do
        let depth ← deeper? depth
        match m.kind with
        | .type => a.typeChunks? depth m
        | .callable | .property => some (a.callableChunks depth m.effectiveName m)
    let more ← a.memberChunks? depth rest
    some (shown ++ more)

end

/-- The blocks of a type, unless some depth on the way exceeds a byte. -/
def documentType? (nested : Bool) (m : Member) : Option (List Text) :=
  if nested then (deeper? typeDepth).bind fun depth => a.typeChunks? depth m
  else (a.typeChunks? typeDepth m).map (anchor m :: ·)

mutual

/-- No depth in a tree that is not too high exceeds a byte. -/
theorem typeChunks?_eq (depth : UInt8) :
    ∀ m : Member, depth.toNat + m.height < 256 →
      a.typeChunks? depth m = some (a.typeChunks depth m)
  | ⟨name, kind, doc, params, inherited, displayName, origin, members⟩, hheight => by
    rw [Member.height] at hheight
    rw [typeChunks?, memberChunks?_eq depth members hheight, typeChunks]
    rfl

theorem memberChunks?_eq (depth : UInt8) :
    ∀ ms : List Member, depth.toNat + Member.heightOfAll ms < 256 →
      a.memberChunks? depth ms = some (a.memberChunks (depth + 1) ms)
  | [], _ => by
    rw [memberChunks?, memberChunks]
  | m :: rest, hheight => by
    rw [Member.heightOfAll] at hheight
    have hfits : depth.toNat + 1 < 256 := by omega
    have hsucc := toNat_succ hfits
    have htype := typeChunks?_eq (depth + 1) m (by omega)
    have hrest := memberChunks?_eq depth rest (by omega)
    have hdeeper : deeper? depth = some (depth + 1) := if_pos hfits
    rw [memberChunks?, memberChunks, hrest, hdeeper]
    cases a.hides m with
    | true => rfl
    | false => cases m.kind <;> simp [htype]

end

/-! ## The documentation of a type -/

/-- **The documentation of a type** is an anchor, at the top level only, then the blocks of the
member itself as those of a type, then the blocks of each visible descendant in order. A heading has
one mark more for each level, and six at most. No depth on the way exceeds a byte, and no manifest
has a tree of members that is as high as that. -/
theorem documentType_preorder (a : Assembler) (nested : Bool) :
    (∀ m : Member, m.height ≤ 127 →
      let base := if nested then 3 else 2
      a.documentType nested m =
          (if nested then [] else [anchor m]) ++ a.typeText base m ++
            (m.descendants.filter a.isVisible).flatMap
              (fun d => a.ownText (base + d.level) d.member) ∧
        a.documentType? nested m = some (a.documentType nested m)) ∧
      ∀ manifest c, Container.read? manifest = some c → ∀ m ∈ c.members, m.height < 127 := by
  refine ⟨fun m hheight => ?_, ?_⟩
  · cases nested with
    | true =>
      have hdepth : (typeDepth + 1).toNat = 3 := rfl
      have hwalk := a.typeChunks_eq (typeDepth + 1) (by omega) m (by omega)
      have hfits := a.typeChunks?_eq (typeDepth + 1) m (by omega)
      exact ⟨hwalk, hfits⟩
    | false =>
      have hdepth : typeDepth.toNat = 2 := rfl
      have hwalk := a.typeChunks_eq typeDepth (by omega) m (by omega)
      have hfits := a.typeChunks?_eq typeDepth m (by omega)
      refine ⟨congrArg (anchor m :: ·) hwalk, ?_⟩
      rw [documentType?, documentType, hfits]
      rfl
  · intro manifest c hread m hm
    have := Container.height_of_read? hread m hm
    omega

/-- A type with a private type, an inherited callable, a type in which a property has members of its
own, and a callable. -/
theorem documentType_preorder_inner :
    let f : Member := { name := "f_x".toList, kind := .callable, params := ["s".toList] }
    let q : Member := { name := "q".toList, kind := .property, members := [f] }
    let parent : Member := { name := "p".toList, kind := .callable, inherited := true }
    let hidden : Member := { name := "_h".toList, kind := .type, members := [f] }
    let inner : Member := { name := "U".toList, kind := .type, members := [f, q] }
    let outer : Member :=
      { name := "T".toList, kind := .type, members := [hidden, parent, inner, f] }
    let a : Assembler := ⟨⟨.rst, .markdown, .pycode⟩, {}⟩
    outer.height ≤ 127 ∧
      a.documentType false outer =
        ["<a id=\"T\"></a>".toList, "## Class T".toList, "### Class U".toList,
          "#### f\\_x".toList, "```python\nf_x(s)\n```".toList, "#### q".toList,
          "```python\nq\n```".toList, "### f\\_x".toList, "```python\nf_x(s)\n```".toList] := by
  intro f q parent hidden inner outer a
  have hheight : outer.height ≤ 127 := by decide
  refine ⟨hheight, ((documentType_preorder a false).1 outer hheight).1.trans ?_⟩
  decide

end Assembler

end ApiDocs
