import ApiDocs.Json.Printer

/-!
# The schema of configuration files

The JSON schema that editors use for configuration files.

* `Schema.config`: the schema.
* `Schema.text`: its text.
-/

namespace ApiDocs

namespace Schema

def str (s : String) : Json := .string s.toList

def obj (fields : List (String × Json)) : Json :=
  .object (fields.map fun (key, j) => (key.toList, j))

def ref (name : String) : String × Json := ("$ref", str ("#/$defs/" ++ name))

def description (s : String) : String × Json := ("description", str s)

def typed (about type : String) : Json := obj [description about, ref type]

/-- A setting of a basic type that may be left out. -/
def optional (about type : String) : Json :=
  obj [description about, ("type", .array [str type, str "null"])]

def optionalNames (about : String) : Json :=
  obj [description about,
    ("anyOf", .array [obj [ref "NameList"], obj [("type", str "null")]])]

def record (about : String) (fields : List (String × Json)) (more : List (String × Json)) : Json :=
  obj ([description about, ("type", str "object"), ("properties", obj fields)] ++ more)

def group : Json :=
  record "A named output group"
    [("members", typed "Members documented in this group" "NameList"),
      ("name", obj [description "Group name, also the output file name (\".md\" is added)",
        ("type", str "string")])]
    [("required", .array [str "name", str "members"])]

def nameList : Json :=
  obj [description "One name or a list of names",
    ("anyOf", .array [obj [("type", str "string")],
      obj [("type", str "array"), ("items", obj [("type", str "string")])]])]

def output : Json :=
  record "Output configuration"
    [("include_inherited",
        optional "Document members that types inherit (default: false)" "boolean"),
      ("omit_version_metadata", optional "Omit the version footer (default: false)" "boolean"),
      ("outfile", optional "File to write a single documentation block to" "string"),
      ("outfolder", optional "Folder to write one file per group to" "string"),
      ("skip_container_docstring",
        optional "Omit the container-level docstring (default: false)" "boolean")]
    []

def selection : Json :=
  record "Member selection configuration"
    [("blacklist", optionalNames "Document every public member except these"),
      ("groups", obj [description "Document members in named groups, one output file per group",
        ("type", .array [str "array", str "null"]), ("items", obj [ref "GroupConfig"])]),
      ("whitelist", optionalNames "Document only these members, in this order")]
    []

def strategy : Json :=
  record "Strategy configuration"
    [("language",
        optional "Language tag for signatures and example code (default: \"python\")" "string"),
      ("parser", optional "Docstring parsing strategy (default: \"rst\")" "string"),
      ("renderer", optional "Tag rendering strategy (default: \"markdown\")" "string"),
      ("styler",
        optional "Example styling strategy: \"plain\" or \"pycode\" (default: \"pycode\")"
          "string")]
    []

def config : Json :=
  obj [("$schema", str "https://json-schema.org/draft/2020-12/schema"), ("title", str "Config"),
    description "Root configuration structure", ("type", str "object"),
    ("properties",
      obj [("output", typed "Output content and destination" "OutputConfig"),
        ("selection",
          typed "Which members to document (at most one of whitelist, blacklist, groups)"
            "SelectionConfig"),
        ("strategy", typed "Parsing, rendering and styling strategies" "StrategyConfig")]),
    ("$defs",
      obj [("GroupConfig", group), ("NameList", nameList), ("OutputConfig", output),
        ("SelectionConfig", selection), ("StrategyConfig", strategy)])]

def text : Text := config.pretty

end Schema

end ApiDocs
