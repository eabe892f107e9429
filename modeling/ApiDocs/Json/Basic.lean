import ApiDocs.Text.Basic

/-!
# JSON values

A JSON value with the fields of an object in the order in which they were written, repeated
ones included. A number is an integer or some other numeral, of which only the text is kept.

A value may also be *unreadable*: well-formed text that stands for no value, because it nests
too deeply, writes half of a surrogate pair or gives a number that is too large. Such a value does
no harm where nobody looks at it, and is of no use anywhere else.

* `Json.string?`, `Json.bool?`, `Json.nat?`, `Json.byte?`, `Json.listOf?`: values of one kind.
* `Json.isReadable`: values that have nothing unreadable in them.
-/

namespace ApiDocs

/-- A JSON value. -/
inductive Json where
  | null
  | bool (value : Bool)
  | integer (value : Int)
  /-- A number that is not written as an integer. -/
  | numeral (text : Text)
  | string (value : Text)
  | array (elements : List Json)
  | object (fields : List (Text × Json))
  /-- Well-formed text that stands for no value. -/
  | unreadable

namespace Json

def string? : Json → Option Text
  | string s => some s
  | _ => none

def bool? : Json → Option Bool
  | bool b => some b
  | _ => none

/-- The value of an integer that is not negative. -/
def nat? : Json → Option Nat
  | integer n => if 0 ≤ n then some n.toNat else none
  | _ => none

/-- The value of an integer that fits in a byte. -/
def byte? (j : Json) : Option UInt8 :=
  j.nat?.bind fun n => if n < 256 then some n.toUInt8 else none

/-- The values of an array, each read by `read?`. -/
def listOf? {α : Type} (read? : Json → Option α) : Json → Option (List α)
  | array xs => xs.mapM read?
  | _ => none

/-- A value that may be absent, which is written as `null`. -/
def optionOf? {α : Type} (read? : Json → Option α) : Json → Option (Option α)
  | null => some none
  | j => (read? j).map some

/-- The fields of an object, each value read by `read?`. -/
def fieldsOf? {α : Type} (read? : Json → Option α) : Json → Option (List (Text × α))
  | object fields => fields.mapM fun (key, j) => (read? j).map (key, ·)
  | _ => none

mutual

/-- Whether nothing in a value is unreadable. -/
def isReadable : Json → Bool
  | unreadable => false
  | array xs => areReadable xs
  | object fields => areFieldsReadable fields
  | _ => true

/-- Whether nothing in values is unreadable. -/
def areReadable : List Json → Bool
  | [] => true
  | j :: rest => isReadable j && areReadable rest

/-- Whether nothing in the values of fields is unreadable. -/
def areFieldsReadable : List (Text × Json) → Bool
  | [] => true
  | (_, j) :: rest => isReadable j && areFieldsReadable rest

end

def strings (ts : List Text) : Json := array (ts.map string)

end Json

end ApiDocs
