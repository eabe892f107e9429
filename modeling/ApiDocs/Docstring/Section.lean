import ApiDocs.Text.Basic

/-!
# Sections of a docstring

The four sections that a docstring may have, each with the words that open it.

* `Section.vocabulary`: the words of a section, in lower case.
* `Section.ofWord?`: the section that a word opens; the case of ASCII letters does not count.
-/

namespace ApiDocs

/-- A section of a docstring. -/
inductive Section where
  | parameters
  | returns
  | raises
  | examples
  deriving DecidableEq, Repr

namespace Section

/-- Every section. -/
def all : List Section := [parameters, returns, raises, examples]

/-- The words that open a section, in lower case. No word opens two sections. -/
def vocabulary : Section → List Text
  | parameters => ["parameters".toList, "params".toList, "args".toList, "arguments".toList]
  | returns => ["returns".toList, "return".toList]
  | raises => ["raises".toList, "raise".toList]
  | examples => ["examples".toList, "example".toList]

/-- The section that a word opens. -/
def ofWord? (word : Text) : Option Section :=
  all.find? fun k => k.vocabulary.contains (Text.lowerAscii word)

/-- The title under which a section is written. -/
def title : Section → Text
  | parameters => "Parameters".toList
  | returns => "Returns".toList
  | raises => "Raises".toList
  | examples => "Examples".toList

end Section

end ApiDocs
