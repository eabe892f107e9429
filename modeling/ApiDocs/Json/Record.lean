import ApiDocs.Json.Basic

/-!
# Records in JSON

A record has named fields in a fixed order. It may be written as an object, in which fields that
the record does not have are ignored and none of its own may be repeated, or as an array that
gives the fields by position.

A field may be left out if it is optional or has a default; by position only fields with
a default may be left out, and those from the end.

The fields of a record hold values of any type, so that a value which contains others of its own
kind can be read together with them.

* `Shape`: the two ways in which a record is written.
* `Record.ofShape?`: the fields of a record, however it is written.
* `Record.required?`, `Record.optional?`, `Record.defaulted?`: one field, by what its absence
  means.
* `Shape.tagged?`: a record that also names its own kind.
-/

namespace ApiDocs.Json

/-- A record as it is written: by name or by position. -/
inductive Shape (β : Type) where
  | named (fields : List (Text × β))
  | positional (elements : List β)

/-- The way in which a value may be a record. -/
def shape? : Json → Option (Shape Json)
  | object fields => some (.named fields)
  | array xs => some (.positional xs)
  | _ => none

/-- The kind that a record names under `key`, or in first place, and the record without it. -/
def Shape.tagged? {β : Type} (key : Text) (kind? : β → Option Text) :
    Shape β → Option (Text × Shape β)
  | named fields =>
    match fields.partition (·.1 == key) with
    | ([(_, b)], others) => (kind? b).map (·, named others)
    | _ => none
  | positional (b :: rest) => (kind? b).map (·, positional rest)
  | positional [] => none

/-- The fields of a record that are present. -/
structure Record (β : Type) where
  /-- Whether the record was written by position. -/
  byPosition : Bool
  fields : List (Text × β)

namespace Record

variable {α β : Type}

/-- How often a key occurs. -/
def occurrences (key : Text) (fields : List (Text × β)) : Nat :=
  (fields.filter (·.1 == key)).length

/-- The fields of a record with the given field names. -/
def ofShape? (names : List Text) : Shape β → Option (Record β)
  | .named fields =>
    if names.all fun n => occurrences n fields ≤ 1 then some ⟨false, fields⟩ else none
  | .positional xs => if xs.length ≤ names.length then some ⟨true, names.zip xs⟩ else none

/-- The fields of a record with the given field names. -/
def ofJson? (names : List Text) (j : Json) : Option (Record Json) :=
  j.shape?.bind (ofShape? names)

/-- The value of a field, if it is present. -/
def get? (r : Record β) (name : Text) : Option β := (r.fields.find? (·.1 == name)).map (·.2)

/-- A field that has to be present. -/
def required? (r : Record β) (name : Text) (read? : β → Option α) : Option α :=
  (r.get? name).bind read?

/-- A field that may be left out unless the record is written by position. -/
def optional? (r : Record β) (name : Text) (read? : β → Option (Option α)) : Option (Option α) :=
  match r.get? name with
  | some b => read? b
  | none => if r.byPosition then none else some none

/-- A field that has the value `default` when it is left out. -/
def defaulted? (r : Record β) (name : Text) (default : α) (read? : β → Option α) : Option α :=
  match r.get? name with
  | some b => read? b
  | none => some default

end Record

/-! ## Fields that may be left out -/

/-- A field that is written only when it has a value. -/
def optionalField {α : Type} (name : Text) (write : α → Json) : Option α → List (Text × Json)
  | none => []
  | some a => [(name, write a)]

/-- A field that is written only when its list is not empty. -/
def listField (name : Text) : List Json → List (Text × Json)
  | [] => []
  | xs => [(name, array xs)]

end ApiDocs.Json
