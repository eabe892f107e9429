import Mathlib.Data.List.Nodup
import ApiDocs.Json.Record

/-!
# Records that are written and read back

A record is written from a table that gives each of its fields a value or leaves it out. The
fields are written in their order, so none is repeated, and looking a field up gives its value in
the table. A field that was left out is read as its default, so nothing is lost as long as only
defaults are left out.

* `present`: the fields of a table that are written.
* `Record.exists_ofShape?_present`: what is written from a table is read as a record with the values
  of the table.
* `Record.defaulted?_optional`, `Record.defaulted?_list`: fields that may be left out are read back.
* `Record.ofShape?_map`: records whose values are read together with something else.
-/

namespace ApiDocs.Json

open scoped List

/-! ## Values -/

theorem string?_string (t : Text) : string? (.string t) = some t := rfl

section Values

variable {α : Type} {write : α → Json} {read? : Json → Option α}

theorem listOf?_map (h : ∀ a, read? (write a) = some a) (as : List α) :
    listOf? read? (.array (as.map write)) = some as := by
  simp only [listOf?]
  induction as with
  | nil => rfl
  | cons a as ih => simp [h a, ih]

theorem listOf?_strings (ts : List Text) : listOf? string? (strings ts) = some ts :=
  listOf?_map string?_string ts

theorem fieldsOf?_map (h : ∀ a, read? (write a) = some a) (entries : List (Text × α)) :
    fieldsOf? read? (.object (entries.map fun e => (e.1, write e.2))) = some entries := by
  simp only [fieldsOf?]
  induction entries with
  | nil => rfl
  | cons e entries ih => simp [h e.2, ih]

/-- A value that is written as `null` when it is absent. -/
theorem optionOf?_getD (hne : ∀ a, write a ≠ .null) (h : ∀ a, read? (write a) = some a)
    (o : Option α) : optionOf? read? ((o.map write).getD .null) = some o := by
  cases o with
  | none => rfl
  | some a =>
    have hread : optionOf? read? (write a) = (read? (write a)).map some := by
      unfold optionOf?
      split
      · rename_i hnull
        exact absurd hnull (hne a)
      · rfl
    simp [hread, h a]

theorem byte?_toNat (n : UInt8) : byte? (.integer n.toNat) = some n := by
  have hlt : n.toNat < 256 := n.toNat_lt
  simp [byte?, nat?, hlt]

end Values

/-! ## Tables of fields -/

/-- The fields of a table that are written. -/
def present : List (Text × Option Json) → List (Text × Json)
  | [] => []
  | (name, value) :: rest => (value.map (name, ·)).toList ++ present rest

/-- A list that is left out when it is empty. -/
def listValue (xs : List Json) : Option Json := if xs.isEmpty then none else some (.array xs)

theorem optionalField_eq {α : Type} (name : Text) (write : α → Json) (o : Option α) :
    optionalField name write o = ((o.map write).map (name, ·)).toList := by
  cases o <;> rfl

theorem listField_eq (name : Text) (xs : List Json) :
    listField name xs = ((listValue xs).map (name, ·)).toList := by
  cases xs <;> rfl

/-- The names that are written are those of the table, in its order. -/
theorem keys_present_sublist (table : List (Text × Option Json)) :
    (present table).map (·.1) <+ table.map (·.1) := by
  induction table with
  | nil => exact .slnil
  | cons f table ih =>
    obtain ⟨name, _ | j⟩ := f
    · exact ih.cons name
    · exact ih.cons_cons name

namespace Record

variable {α β γ : Type}

theorem occurrences_eq_count (name : Text) (fields : List (Text × β)) :
    occurrences name fields = (fields.map (·.1)).count name := by
  rw [occurrences, List.count, List.countP_map, List.countP_eq_length_filter]
  rfl

theorem get?_eq_none {r : Record β} {name : Text} (h : name ∉ r.fields.map (·.1)) :
    r.get? name = none := by
  have hnone : r.fields.find? (·.1 == name) = none := by
    rw [List.find?_eq_none]
    intro f hf heq
    exact h (List.mem_map.mpr ⟨f, hf, by simpa using heq⟩)
  rw [get?, hnone, Option.map_none]

section Present

variable {table : List (Text × Option Json)} {names : List Text}

/-- No field is written twice. -/
theorem ofShape?_present (hnames : table.map (·.1) = names) (hnodup : names.Nodup) :
    ofShape? names (.named (present table)) = some ⟨false, present table⟩ := by
  have honce : ∀ n ∈ names, occurrences n (present table) ≤ 1 := by
    intro n _
    rw [occurrences_eq_count]
    exact List.nodup_iff_count_le_one.mp
      ((hnames ▸ keys_present_sublist table).nodup hnodup) n
  simpa [ofShape?] using honce

theorem get?_present (hnodup : (table.map (·.1)).Nodup) :
    ∀ f ∈ table, (⟨false, present table⟩ : Record Json).get? f.1 = f.2 := by
  induction table with
  | nil => simp
  | cons f table ih =>
    obtain ⟨name, value⟩ := f
    obtain ⟨hname, hrest⟩ := List.nodup_cons.mp hnodup
    refine List.forall_mem_cons.mpr ⟨?_, fun g hg => ?_⟩
    · cases value with
      | none =>
        exact get?_eq_none fun hmem => hname ((keys_present_sublist table).subset hmem)
      | some j => simp [present, get?]
    · have hne : name ≠ g.1 := by
        intro heq
        exact hname (List.mem_map.mpr ⟨g, hg, heq.symm⟩)
      rw [← ih hrest g hg]
      cases value with
      | none => rfl
      | some j => simp [present, get?, hne]

variable (table names) in
/-- What is written from a table is read as a record with the values of the table. -/
theorem exists_ofShape?_present (hnames : table.map (·.1) = names) (hnodup : names.Nodup) :
    ∃ r : Record Json, ofShape? names (.named (present table)) = some r ∧
      ∀ f ∈ table, r.get? f.1 = f.2 :=
  ⟨_, ofShape?_present hnames hnodup, get?_present (hnames ▸ hnodup)⟩

end Present

section Fields

variable {r : Record Json} {name : Text} {j : Json} {a : α}

theorem required?_of_get? {read? : Json → Option α} (h : r.get? name = some j)
    (hread : read? j = some a) : r.required? name read? = some a := by
  rw [required?, h, Option.bind_some, hread]

theorem optional?_of_get? {read? : Json → Option (Option α)} {o : Option α}
    (h : r.get? name = some j) (hread : read? j = some o) : r.optional? name read? = some o := by
  simp only [optional?, h, hread]

theorem defaulted?_of_get? {read? : Json → Option α} (h : r.get? name = some j)
    (hread : read? j = some a) (default : α) : r.defaulted? name default read? = some a := by
  simp only [defaulted?, h, hread]

theorem defaulted?_of_get?_none (h : r.get? name = none) (default : α) (read? : Json → Option α) :
    r.defaulted? name default read? = some default := by
  simp only [defaulted?, h]

/-- A text that is left out when it is absent. -/
theorem defaulted?_optional {o : Option Text} (h : r.get? name = o.map .string) :
    r.defaulted? name none (optionOf? string?) = some o := by
  cases o with
  | none => exact defaulted?_of_get?_none h none _
  | some t =>
    have hread : optionOf? string? (.string t) = some (some t) := rfl
    exact defaulted?_of_get? h hread none

/-- A list that is left out when it is empty. -/
theorem defaulted?_list {xs : List Json} {read? : Json → Option (List α)} {as : List α}
    (h : r.get? name = listValue xs) (hread : read? (.array xs) = some as)
    (hnil : read? (.array []) = some []) : r.defaulted? name [] read? = some as := by
  cases xs with
  | nil =>
    rw [← hread, hnil]
    exact defaulted?_of_get?_none h [] read?
  | cons x xs => exact defaulted?_of_get? h hread []

end Fields

/-! ## Values that are read together with others -/

/-- The record with each value replaced. -/
def map (g : β → γ) (r : Record β) : Record γ :=
  ⟨r.byPosition, r.fields.map fun f => (f.1, g f.2)⟩

theorem get?_map (g : β → γ) (r : Record β) (name : Text) :
    (r.map g).get? name = (r.get? name).map g := by
  simp [get?, map, List.find?_map, Function.comp_def]

theorem required?_map (g : β → γ) (r : Record β) (name : Text) (read? : γ → Option α) :
    (r.map g).required? name read? = r.required? name (fun b => read? (g b)) := by
  rw [required?, get?_map, Option.bind_map]
  rfl

theorem defaulted?_map (g : β → γ) (r : Record β) (name : Text) (default : α)
    (read? : γ → Option α) :
    (r.map g).defaulted? name default read? = r.defaulted? name default (fun b => read? (g b)) := by
  simp only [defaulted?, get?_map]
  cases r.get? name <;> rfl

theorem ofShape?_map (g : β → γ) (names : List Text) (fields : List (Text × β)) :
    ofShape? names (.named (fields.map fun f => (f.1, g f.2))) =
      (ofShape? names (.named fields)).map (map g) := by
  have hkeys : ∀ n, occurrences n (fields.map fun f => (f.1, g f.2)) = occurrences n fields := by
    intro n
    rw [occurrences_eq_count, occurrences_eq_count, List.map_map]
    rfl
  simp only [ofShape?, hkeys]
  split <;> rfl

end Record

end ApiDocs.Json
