import ApiDocs.Package.Container
import ApiDocs.Package.Selection
import ApiDocs.Page.Assembler

/-!
# Documentation of a container

The documentation of a container is one block, or one block for each group of its selection.
A block is the title of the container and its docstring, the documentation of each selected
member, and a line on versions. Within one block no thing is documented twice, whatever names it
has.

* `Container.document`: the documentation, or the names of members that cannot be told apart.
* `Container.block`: one block.
* `Container.selectedByDefault`, `Container.named`: the members of a block.
-/

namespace ApiDocs

/-- What is documented of a container, and how it is laid out. -/
structure ContainerOptions where
  selection : Selection := .all
  /-- Whether the docstring of the container is left out. -/
  skipDocstring : Bool := false
  /-- Whether the line on versions is left out. -/
  omitVersion : Bool := false
  deriving DecidableEq

/-- Documentation: one block, or one for each group. -/
inductive Docs where
  | single (block : Text)
  | grouped (blocks : List (Text × Text))
  deriving DecidableEq

namespace Docs

/-- The one block. -/
def single? : Docs → Option Text
  | single block => some block
  | grouped _ => none

/-- The block of a group. -/
def group? : Docs → Text → Option Text
  | single _, _ => none
  | grouped blocks, name => (blocks.find? (·.1 == name)).map (·.2)

end Docs

/-- Documentation, and the names that were asked for in vain. -/
structure Report where
  docs : Docs
  missing : List Text
  deriving DecidableEq

/-- Selected members that cannot be told apart by their names. -/
structure DuplicateMembers where
  names : List Text
  deriving DecidableEq

def DuplicateMembers.message (e : DuplicateMembers) : Text :=
  "Repeat member names: ".toList ++ Text.commaList e.names

namespace Container

/-! ## Which members -/

/-- The public members that are not excluded: types first, then all others. -/
def selectedByDefault (c : Container) (excluded : List Text) : List Member :=
  let eligible := c.members.filter fun m => !m.isPrivate && !excluded.contains m.name
  eligible.filter (·.kind == .type) ++ eligible.filter (·.kind != .type)

/-- The members of the given names, in that order. -/
def named (c : Container) (names : List Text) : List Member := names.filterMap c.member?

/-- Whether a name has to be the name of one member only. -/
def mustBeUnique (s : Selection) (m : Member) : Bool :=
  match s with
  | .all | .blacklist _ => !m.isPrivate
  | .whitelist _ | .groups _ => s.requested.contains m.name

/-- The names that have occurred before, as they occur again. -/
def repeatsFrom : List Text → List Text → List Text
  | _, [] => []
  | seen, n :: rest =>
    if seen.contains n then n :: repeatsFrom seen rest else repeatsFrom (n :: seen) rest

/-- The names that occur more than once, in the order of their second occurrence. -/
def repeatedNames (names : List Text) : List Text := (repeatsFrom [] names).eraseDups

/-- The members of which no earlier one is the same thing. -/
def uniqueFrom (c : Container) : List Text → List Member → List Member
  | _, [] => []
  | seen, m :: rest =>
    let id := c.identityOf m
    if seen.contains id then uniqueFrom c seen rest else m :: uniqueFrom c (id :: seen) rest

/-! ## Blocks -/

/-- The title of the container and, unless it is to be left out, its docstring. -/
def preamble (c : Container) (o : ContainerOptions) : Text :=
  let title := "# Package ".toList ++ escapeHeading c.name ++ " Documentation".toList
  let doc :=
    match c.doc with
    | some doc => if o.skipDocstring || Text.blank doc then [] else [Text.trim doc]
    | none => []
  "\n\n".toList.intercalate (title :: doc)

/-- The name and version of this tool. -/
def toolVersion : Text := "generated by `lucidoc` v0.1.0".toList

def versionFooter (c : Container) : Text :=
  let version :=
    match c.version with
    | some version => "`".toList ++ c.name ++ "` v".toList ++ version ++ ", ".toList
    | none => []
  "*Version Information: ".toList ++ version ++ toolVersion ++ "*".toList

def sections (c : Container) (a : Assembler) (o : ContainerOptions) (members : List Member) :
    List Text :=
  [c.preamble o] ++
    (c.uniqueFrom [] members).map (fun m => "\n\n".toList.intercalate (a.documentMember m)) ++
    (if o.omitVersion then [] else [c.versionFooter])

/-- A block: its sections with a line between any two. -/
def block (c : Container) (a : Assembler) (o : ContainerOptions) (members : List Member) : Text :=
  Document.toMarkdown
    ⟨((c.sections a o members).map Node.html).intersperse .thematicBreak⟩

/-! ## Documentation -/

/-- The blocks that a selection asks for. -/
def docs (c : Container) (a : Assembler) (o : ContainerOptions) : Docs :=
  match o.selection with
  | .all => .single (c.block a o (c.selectedByDefault []))
  | .blacklist names => .single (c.block a o (c.selectedByDefault names))
  | .whitelist names => .single (c.block a o (c.named names))
  | .groups groups =>
    .grouped (groups.map fun (group, names) => (group, c.block a o (c.named names)))

/-- The documentation of a container. -/
def document (c : Container) (a : Assembler) (o : ContainerOptions) :
    Except DuplicateMembers Report :=
  match repeatedNames ((c.members.filter (mustBeUnique o.selection)).map (·.name)) with
  | [] => .ok ⟨c.docs a o, o.selection.requested.filter (c.member? · |>.isNone)⟩
  | names => .error ⟨names⟩

end Container

end ApiDocs
