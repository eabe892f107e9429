import ApiDocs.Text.Basic

/-!
# Paths

A path is text in which slashes divide segments. Empty segments and single dots lead nowhere, and
at the end of a path they do not count: the file name of a path is its last segment that does,
unless that is two dots.

* `Path.fileName?`, `Path.extension?`, `Path.parent?`: the parts of a path.
* `Path.withExtension`: a path whose file name has no extension, with one added.
* `Path.join`: a path inside a folder.
-/

namespace ApiDocs

namespace Path

def segments (p : Text) : List Text := p.splitOn '/'

def ofSegments (ss : List Text) : Text := "/".toList.intercalate ss

def isAbsolute (p : Text) : Bool := p.head? == some '/'

/-- Whether a segment leads nowhere. -/
def isIdle (s : Text) : Bool := s.isEmpty || s == ".".toList

def isUp (s : Text) : Bool := s == "..".toList

/-- Segments without those at the end that lead nowhere. -/
def trimIdle (ss : List Text) : List Text := (ss.reverse.dropWhile isIdle).reverse

/-! ## File names -/

/-- The file name of a path, if the path names a file. -/
def fileName? (p : Text) : Option Text := (trimIdle (segments p)).getLast?.filter (!isUp ·)

/-- The two sides of the last dot of a file name. A dot at the start begins no extension. -/
def cutExtension? (name : Text) : Option (Text × Text) :=
  (Text.cutAtLast? (· == '.') name).filter fun (stem, _) => !stem.isEmpty

/-- What follows the last dot of the file name. -/
def extension? (p : Text) : Option Text := do
  let name ← fileName? p
  let (_, extension) ← cutExtension? name
  some extension

/-- A path whose file name has no extension, with an extension. Segments at its end that lead
nowhere are dropped; a path that names no file is left as it is. -/
def withExtension (p extension : Text) : Text :=
  match fileName? p with
  | none => p
  | some _ => ofSegments (trimIdle (segments p)) ++ ".".toList ++ extension

/-! ## Folders -/

/-- The folder of a path; empty for a name alone, absent where there is nothing above. -/
def parent? (p : Text) : Option Text :=
  match trimIdle (segments p) with
  | [] => if p.isEmpty || isAbsolute p then none else some []
  | core =>
    let folder := core.dropLast
    match trimIdle folder with
    | [] =>
      if isAbsolute p then some "/".toList
      else if folder.isEmpty then some []
      else some ".".toList
    | ss => some (ofSegments ss)

/-- The first `n` of the path, the folder of the path, the folder of that folder and so on. -/
def ancestorsFrom : Nat → Text → List Text
  | 0, _ => []
  | n + 1, p =>
    p ::
      match parent? p with
      | some folder => ancestorsFrom n folder
      | none => []

/-- The path, the folder of the path, the folder of that folder and so on. A folder has a shorter
path than what is in it, so the bound cuts nothing off. -/
def ancestors (p : Text) : List Text := ancestorsFrom (p.length + 2) p

/-- The path of a name inside a folder. -/
def join (folder name : Text) : Text :=
  if isAbsolute name || folder.isEmpty then name
  else if folder.getLast? == some '/' then folder ++ name
  else folder ++ "/".toList ++ name

end Path

end ApiDocs
