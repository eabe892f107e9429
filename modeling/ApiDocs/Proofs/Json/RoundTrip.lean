import ApiDocs.Docstring.Codec
import ApiDocs.Markdown.Codec
import ApiDocs.Package.Container
import ApiDocs.Proofs.Json.Record

/-!
# What is written in JSON is read back

Docstrings, Markdown trees and containers are written as records and read back without loss. For
the records with fields that may be left out, the fields stand in a table (`table`), and every
field that is left out has the value that reading puts in its place. Trees are read back from
below: an element is read back if its children are, a member if its own members are.

Aliases are read entry by entry and put in order, which gives back what was written, since that is
in order already.

* `Docstring.ofJson?_toJson`, `DocTag.ofJson?_toJson`: docstrings and documented things.
* `Node.ofJson?_toJson`, `Document.ofJson?_toJson`: Markdown trees.
* `Member.ofJson?_toJson`, `Aliases.ofJson?_toJson`, `Container.ofJson?_toJson`: containers.
* `Json.lossless_toJson`: all of them, also for values that were written in other ways.
-/

namespace ApiDocs

open Json

/-! ## Docstrings -/

theorem ParamTag.ofJson?_toJson (t : ParamTag) : ofJson? t.toJson = some t := rfl

theorem TypedTag.ofJson?_toJson (t : TypedTag) : ofJson? t.toJson = some t := rfl

theorem DocTag.ofJson?_toJson (t : DocTag) : ofJson? t.toJson = some t := by
  cases t <;> rfl

theorem ExampleBlock.ofJson?_toJson (b : ExampleBlock) : ofJson? b.toJson = some b := by
  obtain ⟨language, code⟩ := b
  cases language <;> rfl

namespace Docstring

/-- The fields of a docstring. -/
def table (d : Docstring) : List (Text × Option Json) :=
  [("raw".toList, some (.string d.raw)), ("description".toList, some (.string d.description)),
    ("params".toList, some (.array (d.params.map ParamTag.toJson))),
    ("returns".toList, some ((d.returns.map TypedTag.toJson).getD .null)),
    ("raises".toList, some (.array (d.raises.map TypedTag.toJson))),
    ("examples".toList, some (.string d.examples)),
    ("example_blocks".toList, listValue (d.exampleBlocks.map ExampleBlock.toJson))]

theorem toJson_eq (d : Docstring) : d.toJson = .object (present d.table) := by
  simp [toJson, table, present, listField_eq]

theorem ofJson?_toJson (d : Docstring) : ofJson? d.toJson = some d := by
  obtain ⟨r, hr, hget⟩ :=
    Record.exists_ofShape?_present d.table fieldNames rfl (by decide)
  simp only [table, List.forall_mem_cons] at hget
  obtain ⟨hraw, hdescription, hparams, hreturns, hraises, hexamples, hblocks, -⟩ := hget
  have hrecord : Record.ofJson? fieldNames d.toJson = some r := by
    rw [toJson_eq]
    exact hr
  have hraw := Record.required?_of_get? hraw (string?_string d.raw)
  have hdescription := Record.required?_of_get? hdescription (string?_string d.description)
  have hparams := Record.required?_of_get? hparams (listOf?_map ParamTag.ofJson?_toJson d.params)
  have hreturns := Record.optional?_of_get? hreturns
    (optionOf?_getD (fun _ => Json.noConfusion) TypedTag.ofJson?_toJson d.returns)
  have hraises := Record.required?_of_get? hraises (listOf?_map TypedTag.ofJson?_toJson d.raises)
  have hexamples := Record.required?_of_get? hexamples (string?_string d.examples)
  have hblocks := Record.defaulted?_list hblocks
    (listOf?_map ExampleBlock.ofJson?_toJson d.exampleBlocks) rfl
  simp only [ofJson?, hrecord, hraw, hdescription, hparams, hreturns, hraises, hexamples, hblocks,
    Option.bind_eq_bind, Option.bind_some]

end Docstring

/-! ## Markdown trees -/

namespace Node

mutual

-- the kind stands first and no other field has its name, so reading an element comes down to
-- reading its own fields
theorem ofJson?_toJson (nested : Bool) : ∀ n : Node, ofJson? nested n.toJson = some n
  | heading depth children => by
    have hread : ofJson? nested (toJson (heading depth children)) =
        (byte? (.integer depth.toNat)).bind fun d =>
          (childrenOfJson? true (.array (listToJson children))).bind fun ns =>
            some (heading d ns) := rfl
    rw [hread, byte?_toNat, childrenOfJson?_listToJson true children]
    rfl
  | paragraph children | list children | listItem children | strong children => by
    have hchildren := childrenOfJson?_listToJson true children
    simp only [toJson, ofKind, ofJson?, fieldParts, hchildren]
    rfl
  | code lang value => by cases lang <;> rfl
  | thematicBreak | text _ | inlineCode _ | html _ => rfl

theorem childrenOfJson?_listToJson (nested : Bool) :
    ∀ ns : List Node, childrenOfJson? nested (.array (listToJson ns)) = some ns
  | [] => rfl
  | n :: rest => by
    have hn := ofJson?_toJson nested n
    have hrest := childrenOfJson?_listToJson nested rest
    rw [childrenOfJson?] at hrest ⊢
    simp [listToJson, listOfJson?, hn, hrest]

end

end Node

theorem Document.ofJson?_toJson (d : Document) : ofJson? d.toJson = some d := by
  have hread : ofJson? d.toJson =
      (Node.childrenOfJson? false (.array (Node.listToJson d.children))).bind fun ns =>
        some ⟨ns⟩ := rfl
  rw [hread, Node.childrenOfJson?_listToJson]
  rfl

/-! ## Members -/

theorem MemberKind.ofJson?_word (k : MemberKind) : ofJson? (.string k.word) = some k := by
  cases k <;> rfl

namespace Member

theorem fieldParts_eq_map (fields : List (Text × Json)) :
    fieldParts fields = fields.map fun f => (f.1, f.2, membersOfJson? f.2) := by
  induction fields with
  | nil => rw [fieldParts, List.map_nil]
  | cons f rest ih => rw [fieldParts, ih, List.map_cons]

/-- The member that the fields of a record stand for. -/
def ofRecord? (r : Record Json) : Option Member := do
  some
    { name := ← r.required? "name".toList string?
      kind := ← r.required? "kind".toList MemberKind.ofJson?
      doc := ← r.defaulted? "doc".toList none (optionOf? string?)
      params := ← r.defaulted? "params".toList [] (listOf? string?)
      inherited := ← r.defaulted? "inherited".toList false bool?
      displayName := ← r.defaulted? "display_name".toList none (optionOf? string?)
      origin := ← r.defaulted? "origin".toList none (optionOf? string?)
      members := ← r.defaulted? "members".toList [] membersOfJson? }

theorem ofJson?_object (fields : List (Text × Json)) :
    ofJson? (.object fields) = (Record.ofShape? fieldNames (.named fields)).bind ofRecord? := by
  rw [ofJson?, fieldParts_eq_map, ofShape?, Record.ofShape?_map (fun j => (j, membersOfJson? j))]
  simp only [Option.bind_eq_bind, Option.bind_map, Function.comp_def, Record.required?_map,
    Record.defaulted?_map]
  rfl

/-- The fields of a member. -/
def table (m : Member) : List (Text × Option Json) :=
  [("name".toList, some (.string m.name)), ("kind".toList, some (.string m.kind.word)),
    ("doc".toList, m.doc.map .string), ("params".toList, listValue (m.params.map .string)),
    ("inherited".toList, if m.inherited then some (.bool true) else none),
    ("display_name".toList, m.displayName.map .string),
    ("origin".toList, m.origin.map .string),
    ("members".toList, listValue (listToJson m.members))]

theorem toJson_eq : ∀ m : Member, m.toJson = .object (present m.table)
  | ⟨_, _, _, _, inherited, _, _, _⟩ => by
    rw [toJson]
    simp only [table, present, optionalField_eq, listField_eq]
    cases inherited <;> simp

theorem ofJson?_toJson_of_members {m : Member}
    (h : membersOfJson? (.array (listToJson m.members)) = some m.members) :
    ofJson? m.toJson = some m := by
  obtain ⟨r, hr, hget⟩ :=
    Record.exists_ofShape?_present m.table fieldNames rfl (by decide)
  simp only [table, List.forall_mem_cons] at hget
  obtain ⟨hname, hkind, hdoc, hparams, hinherited, hdisplay, horigin, hmembers, -⟩ := hget
  have hname := Record.required?_of_get? hname (string?_string m.name)
  have hkind := Record.required?_of_get? hkind (MemberKind.ofJson?_word m.kind)
  have hdoc := Record.defaulted?_optional hdoc
  have hparams := Record.defaulted?_list hparams (listOf?_strings m.params) rfl
  have hinherited : r.defaulted? "inherited".toList false bool? = some m.inherited := by
    split at hinherited
    · rename_i hm
      have hread : bool? (.bool true) = some true := rfl
      rw [hm]
      exact Record.defaulted?_of_get? hinherited hread false
    · rename_i hm
      rw [eq_false_of_ne_true hm]
      exact Record.defaulted?_of_get?_none hinherited false bool?
  have hdisplay := Record.defaulted?_optional hdisplay
  have horigin := Record.defaulted?_optional horigin
  have hmembers := Record.defaulted?_list hmembers h rfl
  rw [toJson_eq, ofJson?_object, hr]
  simp only [ofRecord?, hname, hkind, hdoc, hparams, hinherited, hdisplay, horigin, hmembers,
    Option.bind_eq_bind, Option.bind_some]
  cases m
  rfl

mutual

theorem ofJson?_toJson : ∀ m : Member, ofJson? m.toJson = some m
  | ⟨_, _, _, _, _, _, _, members⟩ =>
    ofJson?_toJson_of_members (membersOfJson?_listToJson members)

theorem membersOfJson?_listToJson :
    ∀ ms : List Member, membersOfJson? (.array (listToJson ms)) = some ms
  | [] => rfl
  | m :: rest => by
    have hm := ofJson?_toJson m
    have hrest := membersOfJson?_listToJson rest
    rw [membersOfJson?] at hrest ⊢
    simp [listToJson, listOfJson?, hm, hrest]

end

end Member

/-! ## Aliases -/

namespace Aliases

theorem insertEntry_of_last {key : Text} {entries : List (Text × List Text)}
    (h : ∀ e ∈ entries, e.1 < key) (names : List Text) :
    insertEntry key names entries = entries ++ [(key, names)] := by
  induction entries with
  | nil => rfl
  | cons e entries ih =>
    obtain ⟨hlt, hrest⟩ := List.forall_mem_cons.mp h
    have hnot : ¬ key < e.1 := fun hgt => List.lt_irrefl _ (List.lt_trans hlt hgt)
    simp [insertEntry, hnot, hlt, ih hrest]

/-- Entries that come in order are put one after another. -/
theorem entries_foldl_insert (a : Aliases) (more : List (Text × List Text))
    (h : Increasing (a.entries ++ more)) :
    (more.foldl (fun a e => a.insert e.1 e.2) a).entries = a.entries ++ more := by
  induction more generalizing a with
  | nil => simp
  | cons e more ih =>
    have hbelow : ∀ x ∈ a.entries, x.1 < e.1 := by
      intro x hx
      exact (List.pairwise_append.mp h).2.2 x hx e List.mem_cons_self
    have hinsert : (a.insert e.1 e.2).entries = a.entries ++ [e] :=
      insertEntry_of_last hbelow e.2
    have hmore : Increasing ((a.insert e.1 e.2).entries ++ more) := by
      rw [hinsert]
      simpa using h
    rw [List.foldl_cons, ih _ hmore, hinsert]
    simp

theorem ofList_entries (a : Aliases) : ofList a.entries = a := by
  have h := entries_foldl_insert .empty a.entries a.increasing
  obtain ⟨entries, _⟩ := a
  rw [mk.injEq]
  exact h

theorem ofJson?_toJson (a : Aliases) : ofJson? a.toJson = some a := by
  have hfields : fieldsOf? (listOf? string?) a.toJson = some a.entries :=
    fieldsOf?_map listOf?_strings a.entries
  rw [ofJson?, hfields, Option.map_some, ofList_entries]

end Aliases

/-! ## Containers -/

namespace Container

/-- The fields of a container. -/
def table (c : Container) : List (Text × Option Json) :=
  [("name".toList, some (.string c.name)), ("doc".toList, c.doc.map .string),
    ("version".toList, c.version.map .string),
    ("members".toList, some (.array (Member.listToJson c.members))),
    ("aliases".toList, if c.aliases.entries.isEmpty then none else some c.aliases.toJson)]

theorem toJson_eq (c : Container) : c.toJson = .object (present c.table) := by
  simp only [toJson, table, present, optionalField_eq]
  split <;> simp

theorem ofJson?_toJson (c : Container) : ofJson? c.toJson = some c := by
  obtain ⟨r, hr, hget⟩ :=
    Record.exists_ofShape?_present c.table fieldNames rfl (by decide)
  simp only [table, List.forall_mem_cons] at hget
  obtain ⟨hname, hdoc, hversion, hmembers, haliases, -⟩ := hget
  have hrecord : Record.ofJson? fieldNames c.toJson = some r := by
    rw [toJson_eq]
    exact hr
  have hname := Record.required?_of_get? hname (string?_string c.name)
  have hdoc := Record.defaulted?_optional hdoc
  have hversion := Record.defaulted?_optional hversion
  have hmembers := Record.defaulted?_of_get? hmembers
    (Member.membersOfJson?_listToJson c.members) []
  have haliases : r.defaulted? "aliases".toList .empty Aliases.ofJson? = some c.aliases := by
    split at haliases
    · rename_i hempty
      have hnone : Aliases.empty = c.aliases := by
        rw [← c.aliases.ofList_entries, List.isEmpty_iff.mp hempty]
        rfl
      rw [Record.defaulted?_of_get?_none haliases, hnone]
    · exact Record.defaulted?_of_get? haliases c.aliases.ofJson?_toJson _
  simp only [ofJson?, hrecord, hname, hdoc, hversion, hmembers, haliases, Option.bind_eq_bind,
    Option.bind_some]

end Container

/-! ## All that is written -/

namespace Json

/-- Reading gives back what was written; and what was read from any value, however it was written,
stays the same when it is written and read once more. -/
structure Lossless {α : Type} (write : α → Json) (read? : Json → Option α) : Prop where
  read_write : ∀ a, read? (write a) = some a
  reread : ∀ j a, read? j = some a → read? (write a) = some a

theorem lossless_of_read_write {α : Type} {write : α → Json} {read? : Json → Option α}
    (h : ∀ a, read? (write a) = some a) : Lossless write read? :=
  ⟨h, fun _ a _ => h a⟩

/-- **Nothing is lost in JSON**: neither of containers and their members, nor of Markdown trees,
whether they stand by themselves or inside others, nor of docstrings and documented things. -/
theorem lossless_toJson :
    Lossless Container.toJson Container.ofJson? ∧ Lossless Member.toJson Member.ofJson? ∧
      Lossless Document.toJson Document.ofJson? ∧
      (∀ nested, Lossless Node.toJson (Node.ofJson? nested)) ∧
      Lossless Docstring.toJson Docstring.ofJson? ∧ Lossless DocTag.toJson DocTag.ofJson? := by
  refine ⟨?_, ?_, ?_, ?_, ?_, ?_⟩
  · exact lossless_of_read_write Container.ofJson?_toJson
  · exact lossless_of_read_write Member.ofJson?_toJson
  · exact lossless_of_read_write Document.ofJson?_toJson
  · exact fun nested => lossless_of_read_write (Node.ofJson?_toJson nested)
  · exact lossless_of_read_write Docstring.ofJson?_toJson
  · exact lossless_of_read_write DocTag.ofJson?_toJson

/-- A container that is written by position, with a kind as an object, a field that members do not
have and an alias that is given twice. -/
def boxByPosition : Json :=
  .array
    [.string "pkg".toList, .null, .string "1.0".toList,
      .array
        [.object
          [("kind".toList, .object [("type".toList, .null)]), ("line".toList, .integer 7),
            ("name".toList, .string "Box".toList),
            ("members".toList, .array [.array [.string "get".toList, .string "callable".toList]])]],
      .object [("Box".toList, strings ["Crate".toList]), ("Box".toList, strings [])]]

theorem lossless_toJson_boxByPosition :
    ∃ c, Container.ofJson? boxByPosition = some c ∧ c.aliases.entries = [("Box".toList, [])] ∧
      c.members.map (·.members.map (·.name)) = [["get".toList]] ∧
      Container.ofJson? c.toJson = some c :=
  ⟨_, rfl, rfl, rfl, lossless_toJson.1.reread boxByPosition _ rfl⟩

end Json

end ApiDocs
