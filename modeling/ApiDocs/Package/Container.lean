import ApiDocs.Json.Reader
import ApiDocs.Package.Aliases
import ApiDocs.Page.Member

/-!
# Containers

A container is a package or a module with its members. It is read from a manifest, which is JSON
text.

* `Container.member?`, `Container.identityOf`: members by name, and what they are under any name.
* `Container.read?`: the container of a manifest.
* `Container.toJson`, `Container.ofJson?`: a container as a record.
-/

namespace ApiDocs

open Json

/-- A package or a module. -/
structure Container where
  name : Text
  doc : Option Text := none
  version : Option Text := none
  members : List Member := []
  aliases : Aliases := .empty

namespace Container

/-- The first member of a name. -/
def member? (c : Container) (name : Text) : Option Member := c.members.find? (·.name == name)

/-- What a member is under any name: its origin if it has one, else the canonical name among its
aliases, else its own name. -/
def identityOf (c : Container) (m : Member) : Text :=
  match m.origin with
  | some origin => origin
  | none =>
    if c.aliases.isCanonical m.name then m.name else (c.aliases.canonical? m.name).getD m.name

/-! ## JSON -/

def fieldNames : List Text :=
  ["name".toList, "doc".toList, "version".toList, "members".toList, "aliases".toList]

def toJson (c : Container) : Json :=
  .object
    ([("name".toList, .string c.name)] ++ optionalField "doc".toList .string c.doc ++
      optionalField "version".toList .string c.version ++
      [("members".toList, .array (Member.listToJson c.members))] ++
      (if c.aliases.entries.isEmpty then [] else [("aliases".toList, c.aliases.toJson)]))

def ofJson? (j : Json) : Option Container := do
  let r ← Record.ofJson? fieldNames j
  some
    { name := ← r.required? "name".toList string?
      doc := ← r.defaulted? "doc".toList none (optionOf? string?)
      version := ← r.defaulted? "version".toList none (optionOf? string?)
      members := ← r.defaulted? "members".toList [] Member.membersOfJson?
      aliases := ← r.defaulted? "aliases".toList .empty Aliases.ofJson? }

/-- How deeply a manifest may nest. -/
def maxDepth : Nat := 127

def read? (manifest : Text) : Option Container := (Json.read? maxDepth manifest).bind ofJson?

end Container

end ApiDocs
