import ApiDocs.Page.Style

/-!
# Strategies

How docstrings are read, how documented things are shown and how example code is shown is each
chosen by name. Names are looked up without regard to blanks around them and to the case of
ASCII letters.

* `Registry.find`: the strategy that a name stands for.
* `Strategies.resolve`: all three, of which the first unknown name is reported.
-/

namespace ApiDocs

/-- What a strategy decides. -/
inductive StrategyRole where
  | parser
  | renderer
  | styler
  deriving DecidableEq, Repr

def StrategyRole.word : StrategyRole → Text
  | parser => "parser".toList
  | renderer => "renderer".toList
  | styler => "styler".toList

/-- A name that stands for no strategy. -/
structure UnknownStrategy where
  role : StrategyRole
  /-- The name as it was given. -/
  name : Text
  /-- The names that there are. -/
  choices : List Text
  deriving DecidableEq

def UnknownStrategy.message (e : UnknownStrategy) : Text :=
  "Unknown ".toList ++ e.role.word ++ ": ".toList ++ e.name ++ "; choose one: ".toList ++
    Text.commaList e.choices

/-- The strategies of one role, each with its name and with further names for it. -/
structure Registry (α : Type) where
  role : StrategyRole
  entries : List (α × Text × List Text)

/-- The strategy that a name stands for. -/
def Registry.find {α : Type} (r : Registry α) (name : Text) : Except UnknownStrategy α :=
  let wanted := Text.trim name
  match r.entries.find? fun (_, own, others) => (own :: others).any (Text.sameWord · wanted) with
  | some (strategy, _) => .ok strategy
  | none => .error ⟨r.role, name, r.entries.map (·.2.1)⟩

/-! ## The strategies that there are -/

/-- How docstrings are read. -/
inductive ParserStrategy where
  | rst
  deriving DecidableEq

/-- How documented things are shown. -/
inductive RendererStrategy where
  | markdown
  deriving DecidableEq

/-- How example code is shown. -/
inductive StylerStrategy where
  | plain
  | pycode
  deriving DecidableEq

namespace ParserStrategy

def name : ParserStrategy → Text
  | rst => "rst".toList

def registry : Registry ParserStrategy := ⟨.parser, [(rst, rst.name, [])]⟩

end ParserStrategy

namespace RendererStrategy

def name : RendererStrategy → Text
  | markdown => "markdown".toList

def registry : Registry RendererStrategy := ⟨.renderer, [(markdown, markdown.name, ["md".toList])]⟩

end RendererStrategy

namespace StylerStrategy

def name : StylerStrategy → Text
  | plain => "plain".toList
  | pycode => "pycode".toList

def registry : Registry StylerStrategy :=
  ⟨.styler, [(plain, plain.name, []), (pycode, pycode.name, ["fenced".toList])]⟩

def styler : StylerStrategy → Styler
  | plain => .plain
  | pycode => .fenced defaultLanguage

end StylerStrategy

/-! ## All three together -/

/-- The names of three strategies, as they are given. -/
structure StrategyNames where
  parser : Text := ParserStrategy.rst.name
  renderer : Text := RendererStrategy.markdown.name
  styler : Text := StylerStrategy.pycode.name
  deriving DecidableEq

/-- Three strategies. -/
structure Strategies where
  parser : ParserStrategy
  renderer : RendererStrategy
  styler : StylerStrategy
  deriving DecidableEq

/-- The strategies that three names stand for. -/
def Strategies.resolve (names : StrategyNames) : Except UnknownStrategy Strategies := do
  let parser ← ParserStrategy.registry.find names.parser
  let renderer ← RendererStrategy.registry.find names.renderer
  let styler ← StylerStrategy.registry.find names.styler
  return { parser, renderer, styler }

end ApiDocs
