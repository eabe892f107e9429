import ApiDocs.Json.Record

/-!
# Members

A member is one thing to be documented: a callable, a property, or a type with members of its
own.

* `Member.effectiveName`, `Member.identity`, `Member.signature`: how a member is shown and told
  apart from others.
* `Member.toJson`, `Member.ofJson?`: a member as a record.
-/

namespace ApiDocs

open Json

/-- What a member is. -/
inductive MemberKind where
  | callable
  | property
  | type
  deriving DecidableEq, Repr

namespace MemberKind

def word : MemberKind → Text
  | callable => "callable".toList
  | property => "property".toList
  | type => "type".toList

/-- The kind that a word stands for. -/
def ofWord? (w : Text) : Option MemberKind := [callable, property, type].find? (·.word == w)

/-- The kind that a value stands for: its word, also as the one key of an object. -/
def ofJson? : Json → Option MemberKind
  | .string w => ofWord? w
  | .object [(w, .null)] => ofWord? w
  | _ => none

end MemberKind

/-- A thing to be documented. -/
structure Member where
  name : Text
  kind : MemberKind
  /-- The docstring, if there is one. -/
  doc : Option Text := none
  /-- The names of the parameters, in order. -/
  params : List Text := []
  /-- Whether the member comes from a parent of the type that has it. -/
  inherited : Bool := false
  /-- The name to show in place of its own. -/
  displayName : Option Text := none
  /-- What the member is the same as under any name. -/
  origin : Option Text := none
  /-- The members of a type, in order. -/
  members : List Member := []

namespace Member

def hasDeclaredParams (m : Member) : Bool := m.kind == .callable

/-- Whether a member is private: its name starts with an underscore. -/
def isPrivate (m : Member) : Bool := m.name.head? == some '_'

def effectiveName (m : Member) : Text := m.displayName.getD m.name

/-- What the member is, under any name. -/
def identity (m : Member) : Text := m.origin.getD m.name

/-- The member as it is used, under a name: a callable with its parameters. -/
def signature (m : Member) (name : Text) : Text :=
  if m.hasDeclaredParams then name ++ "(".toList ++ Text.commaList m.params ++ ")".toList else name

/-! ## JSON -/

def fieldNames : List Text :=
  ["name".toList, "kind".toList, "doc".toList, "params".toList, "inherited".toList,
    "display_name".toList, "origin".toList, "members".toList]

mutual

def toJson : Member → Json
  | ⟨name, kind, doc, params, inherited, displayName, origin, members⟩ =>
    .object
      ([("name".toList, .string name), ("kind".toList, .string kind.word)] ++
        optionalField "doc".toList .string doc ++
        listField "params".toList (params.map .string) ++
        (if inherited then [("inherited".toList, .bool true)] else []) ++
        optionalField "display_name".toList .string displayName ++
        optionalField "origin".toList .string origin ++
        listField "members".toList (listToJson members))

def listToJson : List Member → List Json
  | [] => []
  | m :: rest => toJson m :: listToJson rest

end

/-- A value with the list of members that it stands for, if it stands for one. -/
abbrev Part := Json × Option (List Member)

def ofShape? (s : Shape Part) : Option Member := do
  let r ← Record.ofShape? fieldNames s
  some
    { name := ← r.required? "name".toList (·.1.string?)
      kind := ← r.required? "kind".toList (MemberKind.ofJson? ·.1)
      doc := ← r.defaulted? "doc".toList none (optionOf? string? ·.1)
      params := ← r.defaulted? "params".toList [] (listOf? string? ·.1)
      inherited := ← r.defaulted? "inherited".toList false (·.1.bool?)
      displayName := ← r.defaulted? "display_name".toList none (optionOf? string? ·.1)
      origin := ← r.defaulted? "origin".toList none (optionOf? string? ·.1)
      members := ← r.defaulted? "members".toList [] (·.2) }

mutual

def ofJson? : Json → Option Member
  | .object fields => ofShape? (.named (fieldParts fields))
  | .array xs => ofShape? (.positional (parts xs))
  | _ => none

def membersOfJson? : Json → Option (List Member)
  | .array xs => listOfJson? xs
  | _ => none

def listOfJson? : List Json → Option (List Member)
  | [] => some []
  | j :: rest => do some ((← ofJson? j) :: (← listOfJson? rest))

/-- Fields with the members that they stand for. -/
def fieldParts : List (Text × Json) → List (Text × Part)
  | [] => []
  | (key, j) :: rest => (key, j, membersOfJson? j) :: fieldParts rest

/-- Values with the members that they stand for. -/
def parts : List Json → List Part
  | [] => []
  | j :: rest => (j, membersOfJson? j) :: parts rest

end

end Member

end ApiDocs
