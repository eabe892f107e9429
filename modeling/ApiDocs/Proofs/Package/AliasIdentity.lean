import Mathlib.Data.List.Nodup
import ApiDocs.Proofs.Package.SelectionModes

/-!
# Names of the same thing

Two members are the same thing if their origins say so. Where a member has no origin, the aliases
decide, and these may send it to a canonical name only, not to the origin of the member that has
that name. So a member and one that is declared to be another name of it are the same thing exactly
if their origins agree, where the canonical name stands for an origin that is not given. Of two
members that are the same thing no block documents both.

* `Aliases.MentionsOnce`: each name is mentioned once at most.
* `Container.documented`: the members that each block documents.
* `Container.identityOf_eq_iff_and_documented_once`: members that are declared to be the same.
* `Container.identityOf_ne_of_one_origin`: an origin parts a member from its other names.
-/

namespace ApiDocs

/-! ## Aliases -/

/-- Each name is mentioned once at most: as a canonical name, or in the list of one of them. -/
structure Aliases.MentionsOnce (a : Aliases) : Prop where
  not_canonical : ∀ e ∈ a.entries, ∀ n ∈ e.2, ∀ f ∈ a.entries, f.1 ≠ n
  same_entry : ∀ e ∈ a.entries, ∀ f ∈ a.entries, ∀ n ∈ e.2, n ∈ f.2 → e = f

namespace Aliases

variable {a : Aliases} {e : Text × List Text} {n : Text}

theorem isCanonical_of_mem (he : e ∈ a.entries) : a.isCanonical e.1 = true :=
  List.any_eq_true.mpr ⟨e, he, beq_self_eq_true e.1⟩

theorem MentionsOnce.isCanonical_eq_false (ha : a.MentionsOnce) (he : e ∈ a.entries)
    (hn : n ∈ e.2) : a.isCanonical n = false := by
  rw [isCanonical, List.any_eq_false]
  intro f hf
  simpa using ha.not_canonical e he n hn f hf

theorem MentionsOnce.canonical?_eq (ha : a.MentionsOnce) (he : e ∈ a.entries) (hn : n ∈ e.2) :
    a.canonical? n = some e.1 := by
  have hsome : (a.entries.find? (·.2.contains n)).isSome = true := by
    rw [List.find?_isSome]
    exact ⟨e, he, List.contains_iff_mem.mpr hn⟩
  obtain ⟨f, hf⟩ := Option.isSome_iff_exists.mp hsome
  have hlists : n ∈ f.2 := by simpa using List.find?_some hf
  have hsame : e = f := ha.same_entry e he f (List.mem_of_find?_eq_some hf) n hn hlists
  rw [canonical?, hf, hsame, Option.map_some]

end Aliases

namespace Container

/-! ## Identity -/

variable {c : Container} {u v : Member} {names : List Text}

theorem identityOf_of_canonical (hu : (u.name, names) ∈ c.aliases.entries) :
    c.identityOf u = u.origin.getD u.name := by
  unfold identityOf
  cases u.origin with
  | some origin => rfl
  | none => exact if_pos (Aliases.isCanonical_of_mem hu)

theorem identityOf_of_listed (hc : c.aliases.MentionsOnce) {n : Text}
    (hn : (n, names) ∈ c.aliases.entries) (hv : v.name ∈ names) :
    c.identityOf v = v.origin.getD n := by
  unfold identityOf
  cases v.origin with
  | some origin => rfl
  | none =>
    simp only [hc.isCanonical_eq_false hn hv, hc.canonical?_eq hn hv]
    rfl

/-! ## What is documented -/

section Firsts

variable {α κ : Type} [BEq κ] [LawfulBEq κ]

/-- Of two elements with the same key, first occurrences hold one only. -/
theorem nodup_map_firstsFrom (key : α → κ) (seen : List κ) (l : List α) :
    ((firstsFrom key seen l).map key).Nodup ∧ ∀ x ∈ firstsFrom key seen l, key x ∉ seen := by
  induction l generalizing seen with
  | nil => simp [firstsFrom]
  | cons x l ih =>
    rw [firstsFrom_cons]
    by_cases hx : seen.contains (key x) = true
    · rw [if_pos hx]
      exact ih seen
    · obtain ⟨hnodup, hseen⟩ := ih (key x :: seen)
      rw [if_neg hx, List.map_cons]
      refine ⟨List.nodup_cons.mpr ⟨?_, hnodup⟩, fun y hy => ?_⟩
      · intro hmem
        obtain ⟨y, hy, hkey⟩ := List.mem_map.mp hmem
        exact hseen y hy (hkey ▸ List.mem_cons_self)
      · rcases List.mem_cons.mp hy with rfl | hy
        · simpa using hx
        · exact fun hmem => hseen y hy (List.mem_cons_of_mem _ hmem)

theorem eq_of_mem_firstsBy {key : α → κ} {l : List α} {x y : α} (hx : x ∈ firstsBy key l)
    (hy : y ∈ firstsBy key l) (hkey : key x = key y) : x = y := by
  have hnodup := (nodup_map_firstsFrom key [] l).1
  rw [firstsFrom_nil] at hnodup
  exact List.inj_on_of_nodup_map hnodup hx hy hkey

end Firsts

/-- The members that a selection asks for in each block. -/
def selected (c : Container) : Selection → List (List Member)
  | .all => [c.selectedByDefault []]
  | .blacklist excluded => [c.selectedByDefault excluded]
  | .whitelist names => [c.named names]
  | .groups gs => gs.map fun g => c.named g.2

/-- The members that each block documents: of those that are asked for, each of which no earlier
one is the same thing. -/
def documented (c : Container) (s : Selection) : List (List Member) :=
  (c.selected s).map (firstsBy c.identityOf)

/-- The text of a block that documents the given members. -/
def textOn (c : Container) (a : Assembler) (o : ContainerOptions) (members : List Member) : Text :=
  "\n\n---\n\n".toList.intercalate
      ([c.preambleText o] ++
        members.map (fun m => "\n\n".toList.intercalate (a.documentMember m)) ++
        if o.omitVersion then [] else [c.versionFooter]) ++
    "\n".toList

end Container

/-- All blocks, in order. -/
def Docs.blocks : Docs → List Text
  | .single block => [block]
  | .grouped blocks => blocks.map (·.2)

namespace Container

/-- Each block is the text of the members that it documents. -/
theorem blocks_docs (c : Container) (a : Assembler) (o : ContainerOptions) :
    (c.docs a o).blocks = (c.documented o.selection).map (c.textOn a o) := by
  have hblock : ∀ members, c.block a o members = c.textOn a o (firstsBy c.identityOf members) :=
    fun members => c.block_eq a o members
  cases hs : o.selection with
  | all | blacklist excluded | whitelist names =>
    simp only [docs, hs, Docs.blocks, documented, selected, hblock, List.map_cons, List.map_nil]
  | groups gs => simp [docs, hs, Docs.blocks, documented, selected, hblock]

/-! ## Declared aliases -/

variable {c : Container} {u v : Member} {names : List Text}

/-- **Members that are declared to be the same.** Let the aliases mention each name once at most,
and let `v` have one of the other names that they give for `u`. The two are the same thing exactly
if their origins agree, the name of `u` standing for an origin that is not given; and if they do,
no block documents both, whatever is selected. -/
theorem identityOf_eq_iff_and_documented_once (hc : c.aliases.MentionsOnce)
    (hu : (u.name, names) ∈ c.aliases.entries) (hv : v.name ∈ names) :
    (c.identityOf u = c.identityOf v ↔ u.origin.getD u.name = v.origin.getD u.name) ∧
      (u.origin.getD u.name = v.origin.getD u.name →
        ∀ (a : Assembler) (o : ContainerOptions) (r : Report), c.document a o = .ok r →
          r.docs.blocks = (c.documented o.selection).map (c.textOn a o) ∧
            ∀ members ∈ c.documented o.selection, ¬ (u ∈ members ∧ v ∈ members)) := by
  have hsame : c.identityOf u = c.identityOf v ↔
      u.origin.getD u.name = v.origin.getD u.name := by
    rw [identityOf_of_canonical hu, identityOf_of_listed hc hu hv]
  refine ⟨hsame, fun horigins a o r hr => ?_⟩
  obtain ⟨-, rfl⟩ := document_eq_ok_iff.mp hr
  refine ⟨c.blocks_docs a o, fun members hmembers hboth => ?_⟩
  obtain ⟨wanted, -, rfl⟩ := List.mem_map.mp hmembers
  have heq : u = v := eq_of_mem_firstsBy hboth.1 hboth.2 (hsame.mpr horigins)
  exact hc.not_canonical _ hu _ hv _ hu (by rw [heq])

theorem mentionsOnce_load :
    (Aliases.ofList [("load".toList, ["read".toList])]).MentionsOnce := by
  have hentries : (Aliases.ofList [("load".toList, ["read".toList])]).entries =
      [("load".toList, ["read".toList])] := rfl
  constructor <;> rw [hentries] <;> simp

/-- A member whose origin is its canonical name is the same thing as the member of that name, and
is not documented beside it. -/
theorem documented_once_load :
    let load : Member := { name := "load".toList, kind := .callable }
    let read : Member := { name := "read".toList, kind := .callable, origin := some "load".toList }
    let c : Container :=
      { name := "pkg".toList, members := [load, read],
        aliases := .ofList [("load".toList, ["read".toList])] }
    c.aliases.MentionsOnce ∧ c.identityOf load = c.identityOf read ∧
      c.documented (.whitelist ["read".toList, "load".toList]) = [[read]] ∧
        ∀ (a : Assembler) (o : ContainerOptions) (r : Report), c.document a o = .ok r →
          r.docs.blocks = (c.documented o.selection).map (c.textOn a o) ∧
            ∀ members ∈ c.documented o.selection, ¬ (load ∈ members ∧ read ∈ members) := by
  intro load read c
  have hu : (load.name, ["read".toList]) ∈ c.aliases.entries := List.mem_singleton_self _
  obtain ⟨hsame, honce⟩ := identityOf_eq_iff_and_documented_once (c := c) (u := load) (v := read)
    mentionsOnce_load hu (List.mem_singleton_self _)
  exact ⟨mentionsOnce_load, hsame.mpr rfl, rfl, honce rfl⟩

/-- A member with an origin and another name of it without one are told apart, and one block
documents both. -/
theorem identityOf_ne_of_one_origin :
    let load : Member :=
      { name := "load".toList, kind := .callable, origin := some "io.load".toList }
    let read : Member := { name := "read".toList, kind := .callable }
    let c : Container :=
      { name := "pkg".toList, members := [load, read],
        aliases := .ofList [("load".toList, ["read".toList])] }
    c.aliases.MentionsOnce ∧ (load.name, [read.name]) ∈ c.aliases.entries ∧
      c.identityOf load ≠ c.identityOf read ∧ c.documented .all = [[load, read]] := by
  intro load read c
  refine ⟨mentionsOnce_load, List.mem_singleton_self _, ?_, rfl⟩
  have hload : c.identityOf load = "io.load".toList := rfl
  have hread : c.identityOf read = "load".toList := rfl
  rw [hload, hread]
  decide

end Container

end ApiDocs
