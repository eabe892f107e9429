import ApiDocs.Json.Basic

/-!
# Selections

A selection says which members of a container are documented, and in which block: all public
ones, only some, all but some, or some in each of several groups.

* `Selection.ofSpec`: the selection that lists of names ask for, of which one may be given.
* `Selection.groupOfSpec`: a group written as `group=name1,name2`.
* `Selection.requested`: the names that a selection asks for.
-/

namespace ApiDocs

/-- One name, or a list of names. -/
inductive NameList where
  | one (name : Text)
  | many (names : List Text)
  deriving DecidableEq

namespace NameList

/-- The names in order. -/
def toList : NameList → List Text
  | one name => [name]
  | many names => names

def toJson : NameList → Json
  | one name => .string name
  | many names => Json.strings names

def ofJson? : Json → Option NameList
  | .string name => some (one name)
  | j => (Json.listOf? Json.string? j).map many

end NameList

/-- Which members are documented. -/
inductive Selection where
  /-- Every public member. -/
  | all
  /-- The named members, in that order. -/
  | whitelist (names : List Text)
  /-- Every public member but the named ones. -/
  | blacklist (names : List Text)
  /-- The named members of each group, in that order. -/
  | groups (groups : List (Text × List Text))
  deriving DecidableEq

/-- The two kinds of selection that are a list of names. -/
inductive ListMode where
  | whitelist
  | blacklist
  deriving DecidableEq

def ListMode.word : ListMode → Text
  | whitelist => "whitelist".toList
  | blacklist => "blacklist".toList

/-- Why there is no selection. -/
inductive SelectionError where
  /-- More than one kind of selection is given. -/
  | conflicting
  /-- A name stands where a list of names is needed. -/
  | singleName (mode : ListMode) (name : Text)
  /-- Two groups have the same name. -/
  | repeatedGroup (group : Text)
  /-- A group is not written as it should be. -/
  | illegalGroup (spec : Text)
  deriving DecidableEq

def SelectionError.message (e : SelectionError) : Text :=
  "Configuration error: ".toList ++
    match e with
    | conflicting => "only one of whitelist, blacklist and groups may be given".toList
    | singleName mode name =>
      mode.word ++ " must be a list of names, not a single name: ".toList ++ name
    | repeatedGroup group => "duplicated group name: ".toList ++ group
    | illegalGroup spec =>
      "illegal output group specification: ".toList ++ spec ++
        "; expected group=name1,name2".toList

namespace Selection

/-- The names of a list, which may not be a single name. -/
def namesOf (mode : ListMode) : NameList → Except SelectionError (List Text)
  | .many names => .ok names
  | .one name => .error (.singleName mode name)

/-- The first name that occurs for a second time. -/
def firstRepeated? : List Text → List Text → Option Text
  | _, [] => none
  | seen, n :: rest => if seen.contains n then some n else firstRepeated? (n :: seen) rest

/-- The selection of groups, which have to be told apart by their names. -/
def ofGroups (groups : List (Text × NameList)) : Except SelectionError Selection :=
  match firstRepeated? [] (groups.map (·.1)) with
  | some group => .error (.repeatedGroup group)
  | none => .ok (.groups (groups.map fun (group, names) => (group, names.toList)))

/-- The selection that is asked for. At most one kind may be given; none means all. -/
def ofSpec (whitelist blacklist : Option NameList) (groups : Option (List (Text × NameList))) :
    Except SelectionError Selection :=
  match whitelist, blacklist, groups with
  | none, none, none => .ok .all
  | some names, none, none => (namesOf .whitelist names).map .whitelist
  | none, some names, none => (namesOf .blacklist names).map .blacklist
  | none, none, some groups => ofGroups groups
  | _, _, _ => .error .conflicting

/-- The group that is written as `group=name1,name2`. -/
def groupOfSpec (spec : Text) : Except SelectionError (Text × NameList) :=
  match Text.cutAtFirst? (· == '=') spec with
  | some (group, names) =>
    if Text.blank group || names.contains '=' then .error (.illegalGroup spec)
    else
      let names := ((names.splitOn ',').map Text.trim).filter (!·.isEmpty)
      .ok (Text.trim group, .many names)
  | none => .error (.illegalGroup spec)

/-- The groups that are written so. -/
def groupsOfSpecs (specs : List Text) : Except SelectionError (List (Text × NameList)) :=
  specs.mapM groupOfSpec

def isGrouped : Selection → Bool
  | groups _ => true
  | _ => false

/-- The names that a selection asks for, each once, in order. -/
def requested : Selection → List Text
  | all | blacklist _ => []
  | whitelist names => names.eraseDups
  | groups gs => (gs.flatMap (·.2)).eraseDups

end Selection

end ApiDocs
