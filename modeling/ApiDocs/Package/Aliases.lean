import ApiDocs.Json.Record

/-!
# Aliases

A package may export one thing under several names. The aliases say, for each of some canonical
names, the other names of the same thing. Canonical names are kept in the order of their code
points, each once.

* `Aliases.insert`: the aliases with one entry set; an entry that was there is replaced.
* `Aliases.canonical?`: the first canonical name that lists a name.
* `Aliases.toJson`, `Aliases.ofJson?`: aliases as an object.
-/

namespace ApiDocs

open Json

/-- Entries whose names increase strictly. -/
abbrev Increasing (entries : List (Text × List Text)) : Prop :=
  entries.Pairwise fun a b => a.1 < b.1

/-- Canonical names with the other names of the same thing. -/
structure Aliases where
  entries : List (Text × List Text)
  increasing : Increasing entries

namespace Aliases

/-! ## Entries in order -/

/-- The entries with one of them set. -/
def insertEntry (key : Text) (names : List Text) : List (Text × List Text) → List (Text × List Text)
  | [] => [(key, names)]
  | (k, ns) :: rest =>
    if key < k then (key, names) :: (k, ns) :: rest
    else if k < key then (k, ns) :: insertEntry key names rest
    else (key, names) :: rest

/-- Setting an entry adds no name but its own. -/
theorem mem_insertEntry {key : Text} {names : List Text} {entries : List (Text × List Text)}
    {e : Text × List Text} (h : e ∈ insertEntry key names entries) :
    e.1 = key ∨ e ∈ entries := by
  induction entries with
  | nil => simp_all [insertEntry]
  | cons p rest ih =>
    obtain ⟨k, ns⟩ := p
    simp only [insertEntry] at h
    split at h
    · rcases List.mem_cons.mp h with rfl | h
      · exact .inl rfl
      · exact .inr h
    · split at h
      · rcases List.mem_cons.mp h with rfl | h
        · exact .inr (List.mem_cons_self ..)
        · exact (ih h).imp_right (List.mem_cons_of_mem _)
      · rcases List.mem_cons.mp h with rfl | h
        · exact .inl rfl
        · exact .inr (List.mem_cons_of_mem _ h)

/-- Setting an entry keeps the names in order. -/
theorem increasing_insertEntry (key : Text) (names : List Text) {entries : List (Text × List Text)}
    (h : Increasing entries) : Increasing (insertEntry key names entries) := by
  induction entries with
  | nil => simp [insertEntry, Increasing]
  | cons p rest ih =>
    obtain ⟨k, ns⟩ := p
    obtain ⟨hk, hrest⟩ := List.pairwise_cons.mp h
    simp only [insertEntry]
    split
    · rename_i hlt
      refine List.pairwise_cons.mpr ⟨fun e he => ?_, h⟩
      rcases List.mem_cons.mp he with rfl | he
      · exact hlt
      · exact List.lt_trans hlt (hk e he)
    · split
      · rename_i hgt
        refine List.pairwise_cons.mpr ⟨fun e he => ?_, ih hrest⟩
        rcases mem_insertEntry he with he | he
        · exact he ▸ hgt
        · exact hk e he
      · rename_i hnlt hngt
        have hkey : key = k := List.le_antisymm (List.not_lt.mp hngt) (List.not_lt.mp hnlt)
        exact List.pairwise_cons.mpr ⟨hkey ▸ hk, hrest⟩

/-! ## Aliases -/

/-- No aliases. -/
def empty : Aliases := ⟨[], .nil⟩

def insert (a : Aliases) (key : Text) (names : List Text) : Aliases :=
  ⟨insertEntry key names a.entries, increasing_insertEntry key names a.increasing⟩

/-- The aliases of a list of entries, of which the last counts for each name. -/
def ofList (entries : List (Text × List Text)) : Aliases :=
  entries.foldl (fun a e => a.insert e.1 e.2) empty

def isCanonical (a : Aliases) (name : Text) : Bool := a.entries.any (·.1 == name)

/-- The first canonical name that lists a name. -/
def canonical? (a : Aliases) (name : Text) : Option Text :=
  (a.entries.find? (·.2.contains name)).map (·.1)

/-! ## JSON -/

def toJson (a : Aliases) : Json := .object (a.entries.map fun (key, names) => (key, strings names))

def ofJson? (j : Json) : Option Aliases := (fieldsOf? (listOf? string?) j).map ofList

end Aliases

end ApiDocs
