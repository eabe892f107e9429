import ApiDocs.Output.Path

/-!
# File systems

A file system as a value: the files with their contents and the directories that there are. The
working directory, the directories above it and the root always exist and are empty at first.

A path is followed segment by segment from the working directory or the root; what is entered on
the way has to be a directory.

There are no links, neither to files nor to directories: a file has one place, and the segments of a
path say where it leads, whatever else there is. All that is proved of paths, places and files is
about such file systems only.

* `Place`: where a path leads.
* `FileSystem.read?`, `FileSystem.pathExists`: what is found at a path.
* `FileSystem.makeDirectories`: a directory with all that is missing above it.
* `FileSystem.write?`: a file with new content.
* `FileSystem.changedFiles`, `FileSystem.newDirectories`: the difference of two file systems.
-/

namespace ApiDocs

/-- A place in a file system: the names below the root, or below the directory that lies so many
levels above the working directory. -/
structure Place where
  absolute : Bool
  levelsUp : Nat
  names : List Text
  deriving DecidableEq

namespace Place

/-- Where the segments of a path start to be followed. -/
def start (path : Text) : Place := ⟨Path.isAbsolute path, 0, []⟩

/-- The directory above. The root lies below itself. -/
def up (p : Place) : Place :=
  if p.names.isEmpty then if p.absolute then p else { p with levelsUp := p.levelsUp + 1 }
  else { p with names := p.names.dropLast }

/-- What a name stands for inside a place. -/
def child (p : Place) (name : Text) : Place := { p with names := p.names ++ [name] }

/-- Where one segment of a path leads. -/
def step (p : Place) (segment : Text) : Place :=
  if Path.isIdle segment then p else if Path.isUp segment then p.up else p.child segment

/-- The path of a place, from the working directory or the root. -/
def path (p : Place) : Text :=
  (if p.absolute then "/".toList else (List.replicate p.levelsUp "../".toList).flatten) ++
    Path.ofSegments p.names

end Place

/-- The files and directories that there are. -/
structure FileSystem where
  files : List (Place × Text)
  directories : List Place
  deriving DecidableEq

/-- Where a path leads. -/
inductive Location where
  | place (p : Place)
  /-- A directory on the way does not exist. -/
  | missing
  /-- The way is blocked: by a file, or by a name or a path that no file can have. -/
  | blocked

/-- The result of making a directory. -/
inductive MakeResult where
  | made (fs : FileSystem)
  /-- A directory above does not exist. -/
  | missing
  | failed

namespace FileSystem

/-- The file system in which there is nothing. -/
def empty : FileSystem := ⟨[], []⟩

/-! ## Looking -/

def isDirectory (fs : FileSystem) (p : Place) : Bool :=
  p.names.isEmpty || fs.directories.contains p

/-- The content of the file at a place. -/
def file? (fs : FileSystem) (p : Place) : Option Text :=
  (fs.files.find? (·.1 == p)).map (·.2)

def byteLength (s : Text) : Nat := s.foldl (fun n c => n + c.utf8Size) 0

/-- Whether a name is too long for a file: more than 255 bytes. -/
def isTooLong (name : Text) : Bool := 255 < byteLength name

/-- Whether no file can have a path: one of more than 4095 bytes, or with a NUL character. -/
def isHopeless (path : Text) : Bool := 4095 < byteLength path || path.contains '\x00'

/-- Follows segments from a place. -/
def follow (fs : FileSystem) : Place → List Text → Location
  | p, [] => .place p
  | p, s :: rest =>
    if fs.isDirectory p then if isTooLong s then .blocked else fs.follow (p.step s) rest
    else if (fs.file? p).isSome then .blocked
    else .missing

/-- Where a path leads. The empty path leads nowhere. -/
def locate (fs : FileSystem) (path : Text) : Location :=
  if path.isEmpty then .missing
  else if isHopeless path then .blocked
  else fs.follow (.start path) (Path.segments path)

def read? (fs : FileSystem) (path : Text) : Option Text :=
  match fs.locate path with
  | .place p => fs.file? p
  | _ => none

def isDirectoryAt (fs : FileSystem) (path : Text) : Bool :=
  match fs.locate path with
  | .place p => fs.isDirectory p
  | _ => false

/-- Whether a path leads to a file or a directory. -/
def pathExists (fs : FileSystem) (path : Text) : Bool :=
  fs.isDirectoryAt path || (fs.read? path).isSome

/-! ## Directories -/

/-- Makes the directory of a path, inside one that exists. Slashes at the end do not count. -/
def makeDirectory (fs : FileSystem) (path : Text) : MakeResult :=
  if isHopeless path then .failed
  else
    let segments := Path.segments path
    let counted := (segments.reverse.dropWhile List.isEmpty).reverse
    match counted.getLast? with
    | none => .failed
    | some name =>
      match fs.follow (.start path) counted.dropLast with
      | .missing => .missing
      | .blocked => .failed
      | .place p =>
        if fs.isDirectory p then
          let target := p.step name
          if isTooLong name || fs.isDirectory target || (fs.file? target).isSome then .failed
          else .made { fs with directories := fs.directories ++ [target] }
        else if (fs.file? p).isSome then .failed
        else .missing

/-- Makes the first directory of a list, each of which lies in the next, with those of the others
that it needs. Says whether it exists afterwards; what has been made on the way remains. -/
def makeFirst (fs : FileSystem) : List Text → FileSystem × Bool
  | [] => (fs, false)
  | path :: outer =>
    if path.isEmpty then (fs, true)
    else
      match fs.makeDirectory path with
      | .made fs => (fs, true)
      | .failed => (fs, fs.isDirectoryAt path)
      | .missing =>
        match fs.makeFirst outer with
        | (fs, false) => (fs, false)
        | (fs, true) =>
          match fs.makeDirectory path with
          | .made fs => (fs, true)
          | _ => (fs, fs.isDirectoryAt path)

/-- Makes the directory of a path and all that is missing above it. -/
def makeDirectories (fs : FileSystem) (path : Text) : FileSystem × Bool :=
  fs.makeFirst (Path.ancestors path)

/-! ## Files -/

/-- The files with the content of one of them set. -/
def setFile (p : Place) (content : Text) : List (Place × Text) → List (Place × Text)
  | [] => [(p, content)]
  | (q, old) :: rest => if q = p then (p, content) :: rest else (q, old) :: setFile p content rest

/-- Writes the file of a path, whose directory has to exist. -/
def write? (fs : FileSystem) (path content : Text) : Option FileSystem :=
  let segments := Path.segments path
  match segments.getLast? with
  | none => none
  | some name =>
    if isHopeless path || Path.isIdle name || Path.isUp name || isTooLong name then none
    else
      match fs.follow (.start path) segments.dropLast with
      | .place p =>
        let target := p.child name
        if fs.isDirectory p && !fs.isDirectory target then
          some { fs with files := setFile target content fs.files }
        else none
      | _ => none

/-- The file system of the given files, with the directories that they need. -/
def ofFiles (files : List (Text × Text)) : FileSystem :=
  files.foldl
    (fun fs (path, content) =>
      let (fs, _) := fs.makeDirectories ((Path.parent? path).getD [])
      (fs.write? path content).getD fs)
    empty

/-! ## Differences -/

/-- The files that are new or have new content, by their paths. -/
def changedFiles (before after : FileSystem) : List (Text × Text) :=
  (after.files.filter fun (p, content) => before.file? p != some content).map fun (p, content) =>
    (p.path, content)

/-- The directories that are new, by their paths, in order. -/
def newDirectories (before after : FileSystem) : List Text :=
  ((after.directories.filter (!before.directories.contains ·)).map Place.path).mergeSort
    fun a b => !(b < a)

end FileSystem

end ApiDocs
