import ApiDocs.Text.Basic

/-!
# Help

* `CommandLine.helpText`: what the command line can say.
-/

namespace ApiDocs.CommandLine

/-- The options, each with what it does. -/
def optionHelp : List (String × String) :=
  [("-P, --parse <PARSER>", "Docstring parsing strategy"),
    ("    --renderer <RENDERER>", "Tag rendering strategy"),
    ("    --styler <STYLER>", "Example styling strategy (plain, pycode)"),
    ("    --language <LANGUAGE>", "Language tag for signatures and example code"),
    ("    --skip-module-docstring", "Omit the package-level docstring"),
    ("    --inherited", "Include inherited members of types"),
    ("    --omit-version", "Omit the version footer"),
    ("    --whitelist <WHITELIST>...", "Names of members to include in documentation"),
    ("    --blacklist <BLACKLIST>...", "Names of members to exclude from documentation"),
    ("    --output-groups <GROUP=NAMES>...",
      "Groups of members to document together: g1=a,b g2=c"),
    ("    --outfile <OUTFILE>",
      "File to write documentation to (\".md\" is added when missing)"),
    ("    --outfolder <OUTFOLDER>", "Folder to write one file per output group to"),
    ("-c, --config <CONFIG>",
      "Configuration file (defaults to ./_lucidoc.toml when present)"),
    ("    --init-config", "Write a sample _lucidoc.toml to the current directory and exit"),
    ("    --print-schema", "Print the JSON schema of the configuration file and exit"),
    ("-j, --jobs <JOBS>", "Number of parallel jobs (defaults to number of CPUs)"),
    ("-v, --verbose", "Verbose output"),
    ("-q, --quiet", "Quiet mode - only show errors"),
    ("-h, --help", "Print help"),
    ("-V, --version", "Print version")]

/-- A line of help: what is written, and what it does in the second column. -/
def helpLine (width : Nat) (entry : String × String) : Text :=
  let written := entry.1.toList
  "  ".toList ++ written ++ List.replicate (width - written.length) ' ' ++ "  ".toList ++
    entry.2.toList ++ "\n".toList

def helpText : Text :=
  let width := (optionHelp.map (·.1.length)).foldl max 0
  "Generate Markdown API documentation from docstrings\n\n".toList ++
    "Usage: lucidoc [OPTIONS] [MANIFEST]\n\n".toList ++
    "Arguments:\n  [MANIFEST]  JSON manifest of the package to document\n\n".toList ++
    "Options:\n".toList ++ optionHelp.flatMap (helpLine width) ++
    ("\nExamples:\n" ++
      "  lucidoc pkg.json                              # Print docs to stdout\n" ++
      "  lucidoc pkg.json --outfile docs/api           # Write docs/api.md\n" ++
      "  lucidoc pkg.json --whitelist load,save        # Document only some members\n" ++
      "  lucidoc pkg.json --output-groups io=load,save util=helper --outfolder docs/\n" ++
      "                                                # One file per group\n").toList

end ApiDocs.CommandLine
