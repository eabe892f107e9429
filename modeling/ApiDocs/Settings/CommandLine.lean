import ApiDocs.Text.Basic

/-!
# The command line

A command line is a list of words: options, their values and the path of a manifest. An option is
written `--name value`, `--name=value` or, if it has a letter, `-n value`, `-nvalue` or
`-n=value`; letters of switches may be written together. After `--` every word is a path.

* `CommandLine.Arguments`: what a command line asks for.
* `CommandLine.parse`: the arguments of a command line, or that it is refused.
-/

namespace ApiDocs

namespace CommandLine

/-! ## Options -/

/-- An option that is given or not. -/
inductive Switch where
  | skipDocstring
  | inherited
  | omitVersion
  | initConfig
  | printSchema
  | verbose
  | quiet
  deriving DecidableEq

/-- An option with one value. -/
inductive Setting where
  | parser
  | renderer
  | styler
  | language
  | outfile
  | outfolder
  | config
  | jobs
  deriving DecidableEq

/-- An option with one or more values, which may be given repeatedly. -/
inductive Listing where
  | whitelist
  | blacklist
  | outputGroups
  deriving DecidableEq

/-- An option. -/
inductive Flag where
  | switch (s : Switch)
  | setting (s : Setting)
  | listing (l : Listing)
  | help
  | version
  deriving DecidableEq

/-- The options by their names. -/
def longFlags : List (Text × Flag) :=
  [("parse".toList, .setting .parser), ("renderer".toList, .setting .renderer),
    ("styler".toList, .setting .styler), ("language".toList, .setting .language),
    ("skip-module-docstring".toList, .switch .skipDocstring),
    ("inherited".toList, .switch .inherited), ("omit-version".toList, .switch .omitVersion),
    ("whitelist".toList, .listing .whitelist), ("blacklist".toList, .listing .blacklist),
    ("output-groups".toList, .listing .outputGroups), ("outfile".toList, .setting .outfile),
    ("outfolder".toList, .setting .outfolder), ("config".toList, .setting .config),
    ("init-config".toList, .switch .initConfig), ("print-schema".toList, .switch .printSchema),
    ("jobs".toList, .setting .jobs), ("verbose".toList, .switch .verbose),
    ("quiet".toList, .switch .quiet), ("help".toList, .help), ("version".toList, .version)]

/-- The options by their letters. -/
def shortFlags : List (Char × Flag) :=
  [('P', .setting .parser), ('c', .setting .config), ('j', .setting .jobs),
    ('v', .switch .verbose), ('q', .switch .quiet), ('h', .help), ('V', .version)]

/-! ## Arguments -/

/-- What a command line asks for. -/
structure Arguments where
  manifest : Option Text := none
  switches : List Switch := []
  settings : List (Setting × Text) := []
  listings : List (Listing × List Text) := []
  deriving DecidableEq

namespace Arguments

/-- Whether a switch is given. -/
def has (a : Arguments) (s : Switch) : Bool := a.switches.contains s

/-- The value of a setting that is given. -/
def value? (a : Arguments) (s : Setting) : Option Text :=
  (a.settings.find? (·.1 == s)).map (·.2)

/-- The values of a list that is given, those of repeated ones together. -/
def values? (a : Arguments) (l : Listing) : Option (List Text) :=
  let given := a.listings.filter (·.1 == l)
  if given.isEmpty then none else some (given.flatMap (·.2))

end Arguments

/-- What becomes of a command line. -/
inductive Outcome where
  | run (a : Arguments)
  | showHelp
  | showVersion
  | refused
  deriving DecidableEq

/-! ## Values -/

/-- Whether a text is a number of jobs: digits, after a plus sign at most, and less than 2^64. -/
def isJobCount (s : Text) : Bool :=
  let digits :=
    match s with
    | '+' :: rest => rest
    | _ => s
  !digits.isEmpty && digits.all Char.isDigit &&
    digits.foldl (fun n d => 10 * n + (d.toNat - '0'.toNat)) 0 < Nat.pow 2 64

/-- Whether a setting accepts a value. A path is not empty. -/
def accepts : Setting → Text → Bool
  | .outfile, s | .outfolder, s | .config, s => !s.isEmpty
  | .jobs, s => isJobCount s
  | .parser, _ | .renderer, _ | .styler, _ | .language, _ => true

/-- The values of a list as they are given; names are divided by commas. -/
def splitValues : Listing → List Text → List Text
  | .whitelist, vs | .blacklist, vs => vs.flatMap (·.splitOn ',')
  | .outputGroups, vs => vs

/-! ## Reading words -/

/-- An option that waits for values. -/
inductive Waiting where
  | setting (s : Setting)
  | listing (l : Listing) (values : List Text)
  deriving DecidableEq

/-- What has been read of a command line. -/
structure State where
  arguments : Arguments := {}
  waiting : Option Waiting := none
  /-- Whether every further word is a path. -/
  pathsOnly : Bool := false

/-- Why reading ends before the end of the command line. -/
inductive Stop where
  | help
  | version
  | refused
  deriving DecidableEq

/-- Reading that may end early. -/
abbrev Reading := Except Stop

/-- Sets a setting, which may be done once. -/
def giveSetting (s : Setting) (v : Text) (a : Arguments) : Reading Arguments :=
  if (a.value? s).isSome || !accepts s v then .error .refused
  else .ok { a with settings := a.settings ++ [(s, v)] }

/-- Adds values to a list, of which there has to be one. -/
def giveListing (l : Listing) (vs : List Text) (a : Arguments) : Reading Arguments :=
  if vs.isEmpty then .error .refused
  else .ok { a with listings := a.listings ++ [(l, splitValues l vs)] }

/-- Gives a switch, which may be done once. -/
def giveSwitch (s : Switch) (a : Arguments) : Reading Arguments :=
  if a.has s then .error .refused else .ok { a with switches := a.switches ++ [s] }

/-- Gives the manifest, of which there is one. -/
def giveManifest (path : Text) (a : Arguments) : Reading Arguments :=
  if a.manifest.isSome || path.isEmpty then .error .refused
  else .ok { a with manifest := some path }

/-- Ends the option that waits for values. -/
def settle (st : State) : Reading State :=
  match st.waiting with
  | none => .ok st
  | some (.setting _) => .error .refused
  | some (.listing l vs) => do
    return { st with arguments := ← giveListing l vs st.arguments, waiting := none }

/-- Gives an option, with the value that is attached to it, if one is. -/
def giveFlag (flag : Flag) (attached : Option Text) (st : State) : Reading State :=
  match flag, attached with
  | .help, none => .error .help
  | .version, none => .error .version
  | .switch s, none => do return { st with arguments := ← giveSwitch s st.arguments }
  | .setting s, some v => do return { st with arguments := ← giveSetting s v st.arguments }
  | .setting s, none => .ok { st with waiting := some (.setting s) }
  | .listing l, some v => do return { st with arguments := ← giveListing l [v] st.arguments }
  | .listing l, none => .ok { st with waiting := some (.listing l []) }
  | .help, some _ | .version, some _ | .switch _, some _ => .error .refused

/-- Reads `name` or `name=value` after two dashes. -/
def readLong (word : Text) (st : State) : Reading State := do
  let (name, attached) :=
    match Text.cutAtFirst? (· == '=') word with
    | some (name, v) => (name, some v)
    | none => (word, none)
  match longFlags.find? (·.1 == name) with
  | some (_, flag) => giveFlag flag attached (← settle st)
  | none => .error .refused

/-- Reads letters after one dash. The letters of switches may be followed by others; the letter of
an option with values is followed by its value. -/
def readShort : Text → State → Reading State
  | [], st => .ok st
  | c :: rest, st => do
    match shortFlags.find? (·.1 == c) with
    | none => .error .refused
    | some (_, .switch s) => readShort rest (← giveFlag (.switch s) none (← settle st))
    | some (_, .help) => giveFlag .help none (← settle st)
    | some (_, .version) => giveFlag .version none (← settle st)
    | some (_, flag) =>
      let attached :=
        match rest with
        | [] => none
        | '=' :: v => some v
        | v => some v
      giveFlag flag attached (← settle st)

/-- Reads a word that is no option: a value that is waited for, or the manifest. -/
def readPlain (word : Text) (st : State) : Reading State :=
  match st.waiting with
  | some (.setting s) => do
    return { st with arguments := ← giveSetting s word st.arguments, waiting := none }
  | some (.listing l vs) => .ok { st with waiting := some (.listing l (vs ++ [word])) }
  | none => do return { st with arguments := ← giveManifest word st.arguments }

def readWord (st : State) (word : Text) : Reading State :=
  if st.pathsOnly then do return { st with arguments := ← giveManifest word st.arguments }
  else
    match word with
    | ['-', '-'] => do return { ← settle st with pathsOnly := true }
    | '-' :: '-' :: rest => readLong rest st
    | '-' :: c :: rest => readShort (c :: rest) st
    | _ => readPlain word st

/-- Whether no two options are given that exclude each other, and there is a manifest if one is
needed. -/
def isConsistent (a : Arguments) : Bool :=
  let given := [Listing.whitelist, .blacklist, .outputGroups].filter (a.values? · |>.isSome)
  given.length ≤ 1 && !((a.value? .outfile).isSome && (a.value? .outfolder).isSome) &&
    (a.manifest.isSome || a.has .initConfig || a.has .printSchema)

/-- What becomes of a command line. -/
def parse (words : List Text) : Outcome :=
  match words.foldlM readWord {} >>= settle with
  | .error .help => .showHelp
  | .error .version => .showVersion
  | .error .refused => .refused
  | .ok st => if isConsistent st.arguments then .run st.arguments else .refused

end CommandLine

end ApiDocs
