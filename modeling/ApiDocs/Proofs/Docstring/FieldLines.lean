import Mathlib.Algebra.Order.Ring.Nat
import ApiDocs.Proofs.Docstring.DialectAgreement

/-!
# Fields declare one thing each

Whether a line is a field is decided by the words of its declaration; what it declares is found
by cutting the declaration at blanks, later and on its own. The two agree: each field declares one
thing, and it stands among the other documented things where the field stands in the text.

* `Block.exists_declaration`: a line that is a field has a declaration.
* `Block.gather_of_field`: the blocks of lines with a field among them.
* `Block.length_flatMap_gather`: a count over blocks is a count over bodies and over fields.
* `Docstring.field_lines_declare`: what each field adds to the docstring, and how much all add.
-/

namespace ApiDocs

namespace Line

theorem sectionOfKeyword?_ne_examples (words : List Text) :
    sectionOfKeyword? words ≠ some .examples := by
  cases words with
  | nil => simp [sectionOfKeyword?]
  | cons word more =>
    simp only [sectionOfKeyword?]
    split
    · simp
    · split
      · simp
      · split <;> simp

theorem fieldSection?_ne_examples (s : Text) : fieldSection? s ≠ some .examples := by
  intro h
  obtain ⟨field, declaration, inline, -, -, hk⟩ := fieldSection?_eq_some h
  exact sectionOfKeyword?_ne_examples _ hk

end Line

namespace Block

/-! ## The declaration of a field -/

/-- A line that is a field has a declaration, whatever lines continue it. A parameter that it
declares has a name. -/
theorem exists_declaration {s : Text} {k : Section} (h : Line.fieldSection? s = some k)
    (continuation : List Text) :
    ∃ declared description,
      declaration? (Text.trim s) continuation = some (declared, description) ∧
      (k = .parameters → (declaredParam declared description).name ≠ []) := by
  obtain ⟨declared, inline, hdecl, htrim, -, -, hne⟩ := declaration?_spec h
  refine ⟨declared, Item.appendLines inline continuation, hdecl continuation, ?_⟩
  intro hk
  exact (declaredParam_spec htrim (hne hk) _).1

theorem adds_of_declaration {first : Text} {more : List Text} {declared description : Text}
    (h : declaration? first more = some (declared, description)) :
    (field .parameters first more).params = [declaredParam declared description] ∧
      (field .raises first more).errors = [⟨declared, description⟩] ∧
      (field .returns first more).returned? = some ⟨declared, description⟩ := by
  simp [params, errors, returned?, h]

/-- The lines that continue a field which stands just above the given lines. -/
def continuation (after : List Line) : List Text :=
  ((ownedLines (gather after).1).takeWhile (!·.isBlank)).map (·.trimmed)

/-- A field stands between the blocks above it and those below it. -/
theorem gather_of_field (before : List Line) {l : Line} {k : Section} (hl : l.kind = .field k)
    (after : List Line) :
    (gather (before ++ l :: after)).2 =
      (gather before).2 ++ field k l.trimmed (continuation after) :: (gather after).2 := by
  have hopens : l.opens = true := by simp [Line.opens, hl]
  rw [gather_append before hopens, gather]
  simp only [opened?, hl]
  rfl

/-! ## Counting what blocks add -/

/-- The bodies of all sections of one kind. -/
def bodies (k : Section) (blocks : List Block) : List (List Line) :=
  blocks.filterMap fun
    | body j lines => if j = k then some lines else none
    | field _ _ _ => none

section Count

variable {α : Type} {add : Block → List α} {items : List Line → Nat} {k : Section}

/-- What blocks add, where only blocks of section `k` add anything, is counted by the items of the
bodies and by the lines that are fields. -/
theorem length_flatMap_gather (hother : ∀ b : Block, b.kind ≠ k → add b = [])
    (hbody : ∀ lines, (add (body k lines)).length = items lines) {ls : List Line}
    (hfield : ∀ l ∈ ls, l.kind = .field k → ∀ more, (add (field k l.trimmed more)).length = 1) :
    ((gather ls).2.flatMap add).length =
      ((bodies k (gather ls).2).map items).sum + ls.countP (·.kind = .field k) := by
  induction ls with
  | nil => rfl
  | cons l ls ih =>
    obtain ⟨hl, hls⟩ := List.forall_mem_cons.mp hfield
    have hrest := ih hls
    cases hkind : l.kind with
    | header j =>
      have hg : (gather (l :: ls)).2 = body j (ownedLines (gather ls).1) :: (gather ls).2 := by
        simp [gather, opened?, hkind]
      rw [hg, List.flatMap_cons, List.length_append, hrest]
      by_cases hj : j = k
      · subst hj
        simp [bodies, hbody, hkind]
        omega
      · simp [bodies, hother (body j _) hj, hkind, hj]
    | field j =>
      have hg := gather_of_field [] hkind ls
      rw [List.nil_append] at hg
      rw [hg, List.flatMap_append, List.flatMap_cons, List.length_append, List.length_append, hrest]
      by_cases hj : j = k
      · subst hj
        simp [bodies, hl hkind, hkind, gather]
        omega
      · simp [bodies, hother (field j _ _) hj, hkind, hj, gather]
    | blank | underline | text =>
      -- the line belongs to the block above, if there is one
      have hquiet : l.opens = false := by simp [Line.opens, hkind]
      rw [gather_cons_of_not_opens hquiet]
      simp [hrest, hkind]

end Count

end Block

namespace Docstring

open Block

/-- **Each field declares one thing.** No field is passed over and none belongs to example code.
A field that declares a parameter or an error adds it, with a name if it is a parameter, between
what the lines above and the lines below it add; a field that declares a return value gives it if
the lines above do not. So parameters are as many as the items of their sections and the fields that
declare one, and errors likewise. -/
theorem field_lines_declare (s : Text) :
    (∀ k first more, field k first more ∈ (gather (Line.ofText s)).2 →
      k ≠ .examples ∧ (declaration? first more).isSome = true) ∧
    (∀ before l after k, Line.ofText s = before ++ l :: after → l.kind = .field k →
      ∃ declared description,
        declaration? l.trimmed (continuation after) = some (declared, description) ∧
        (k = .parameters → (declaredParam declared description).name ≠ [] ∧
          (parse s).params = (gather before).2.flatMap Block.params ++
            declaredParam declared description :: (gather after).2.flatMap Block.params) ∧
        (k = .raises → (parse s).raises = (gather before).2.flatMap Block.errors ++
            ⟨declared, description⟩ :: (gather after).2.flatMap Block.errors) ∧
        (k = .returns → (parse s).returns =
          ((gather before).2.findSome? Block.returned?).or (some ⟨declared, description⟩))) ∧
    (parse s).params.length =
      ((bodies .parameters (gather (Line.ofText s)).2).map
          fun lines => (Item.collect Field.paramHead? lines).length).sum +
        (Line.ofText s).countP (·.kind = .field .parameters) ∧
    (parse s).raises.length =
      ((bodies .raises (gather (Line.ofText s)).2).map
          fun lines => (Item.collect Field.errorHead? lines).length).sum +
        (Line.ofText s).countP (·.kind = .field .raises) := by
  have hsection : ∀ l ∈ Line.ofText s, ∀ k, l.kind = .field k →
      Line.fieldSection? l.text = some k := fun l hl => (Line.kind_spec hl).2
  refine ⟨?_, ?_, ?_, ?_⟩
  · intro k first more hmem
    cases madeFrom_of_mem_gather hmem with
    | field hfirst inRow declares quiet =>
      obtain ⟨declared, description, hdecl, -⟩ := exists_declaration declares _
      refine ⟨?_, by rw [hdecl]; rfl⟩
      rintro rfl
      exact Line.fieldSection?_ne_examples _ declares
  · intro before l after k hs hl
    have hmem : l ∈ Line.ofText s := by simp [hs]
    obtain ⟨declared, description, hdecl, hname⟩ :=
      exists_declaration (hsection l hmem k hl) (continuation after)
    obtain ⟨hparam, herror, hreturned⟩ := adds_of_declaration hdecl
    have hblocks : (gather (Line.ofText s)).2 = (gather before).2 ++
        field k (Text.trim l.text) (continuation after) :: (gather after).2 := by
      rw [hs]
      exact gather_of_field before hl after
    refine ⟨declared, description, hdecl, ?_, ?_, ?_⟩
    · rintro rfl
      refine ⟨hname rfl, ?_⟩
      simp only [parse, hblocks, List.flatMap_append, List.flatMap_cons, hparam]
      rfl
    · rintro rfl
      simp only [parse, hblocks, List.flatMap_append, List.flatMap_cons, herror]
      rfl
    · rintro rfl
      simp only [parse, hblocks, List.findSome?_append, List.findSome?_cons, hreturned]
  · refine length_flatMap_gather (fun b => b.eq_nil_of_kind.1) (fun lines => List.length_map _) ?_
    intro l hl hkind more
    obtain ⟨declared, description, hdecl, -⟩ := exists_declaration (hsection l hl _ hkind) more
    exact congrArg List.length (adds_of_declaration hdecl).1
  · refine length_flatMap_gather (fun b => b.eq_nil_of_kind.2.2.1) (fun lines => List.length_map _)
      ?_
    intro l hl hkind more
    obtain ⟨declared, description, hdecl, -⟩ := exists_declaration (hsection l hl _ hkind) more
    exact congrArg List.length (adds_of_declaration hdecl).2.1

/-- A field between two sections, with blanks of several kinds in its declaration and a colon inside
brackets. -/
theorem field_lines_declare_blanks :
    Line.ofText "Args:\n a: x\n:Param\u00a0 m[k: v]\tn : y\n z\nArgs:\n b: w".toList =
        Line.ofText "Args:\n a: x".toList ++
          ⟨":Param\u00a0 m[k: v]\tn : y".toList, .field .parameters⟩ ::
            Line.ofText " z\nArgs:\n b: w".toList ∧
      (parse "Args:\n a: x\n:Param\u00a0 m[k: v]\tn : y\n z\nArgs:\n b: w".toList).params =
        (parse "Args:\n a: x".toList).params ++
          ⟨"n".toList, "m[k: v]".toList, "y z".toList⟩ ::
            (parse " z\nArgs:\n b: w".toList).params := by
  have hlines : Line.ofText "Args:\n a: x\n:Param\u00a0 m[k: v]\tn : y\n z\nArgs:\n b: w".toList =
      Line.ofText "Args:\n a: x".toList ++
        ⟨":Param\u00a0 m[k: v]\tn : y".toList, .field .parameters⟩ ::
          Line.ofText " z\nArgs:\n b: w".toList := by decide
  have hvalue : declaration? (Text.trim ":Param\u00a0 m[k: v]\tn : y".toList)
      (continuation (Line.ofText " z\nArgs:\n b: w".toList)) =
        some ("m[k: v]\tn".toList, "y z".toList) := by decide
  obtain ⟨-, horder, -⟩ := field_lines_declare
    "Args:\n a: x\n:Param\u00a0 m[k: v]\tn : y\n z\nArgs:\n b: w".toList
  obtain ⟨declared, description, hdecl, hparam, -⟩ := horder _ _ _ _ hlines rfl
  cases hvalue.symm.trans hdecl
  exact ⟨hlines, (hparam rfl).2⟩

end Docstring

end ApiDocs
