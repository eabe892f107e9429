import ApiDocs.Markdown.Writer

/-!
# Example code in Markdown

* `Styler.style`, `Styler.styleAs`: example code as it stands, or between fences that name its
  language.
-/

namespace ApiDocs

/-- The language that code has when nothing names one. -/
def defaultLanguage : Text := "python".toList

/-- How example code is shown. -/
inductive Styler where
  /-- As it stands. -/
  | plain
  /-- Between fences, in a language of its own when none is given. -/
  | fenced (language : Text)

namespace Styler

/-- Code between fences; nothing if the code is blank. -/
def fence (text language : Text) : Text :=
  if Text.blank text then []
  else
    let lang := if language.isEmpty then none else some language
    Text.dropEndWhile (· == '\n') (Document.toMarkdown ⟨[.code lang text]⟩)

/-- Code that is known to be in a language. -/
def styleAs : Styler → Text → Text → Text
  | plain, text, _ => text
  | fenced _, text, language => fence text language

/-- Code of which nobody says the language. -/
def style : Styler → Text → Text
  | plain, text => text
  | fenced language, text => fence text language

end Styler

end ApiDocs
