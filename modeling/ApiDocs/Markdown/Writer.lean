import ApiDocs.Markdown.Node

/-!
# Writing Markdown

A tree is written from left to right. The writer knows what it has written, whether it stands at
the start of a line, and how far the lines of the current list item are indented.

* `Markdown.longestBacktickRun`, `Markdown.fenceLength`: how long the delimiters of code have to
  be so that the code cannot end them.
* `Markdown.writeNode`: one element.
* `Document.toMarkdown`: blocks with a blank line between them.
* `Markdown.inline`: elements without any block structure around them.
-/

namespace ApiDocs

namespace Markdown

/-! ## Delimiters of code -/

/-- The longer of `best` and the longest run of backticks in the text, when `run` backticks stand
just before the text. -/
def longestRunFrom (best run : Nat) : Text → Nat
  | [] => best
  | c :: cs =>
    if c == '\x60' then longestRunFrom (max best (run + 1)) (run + 1) cs
    else longestRunFrom best 0 cs

/-- Length of the longest run of backticks. -/
def longestBacktickRun (s : Text) : Nat := longestRunFrom 0 0 s

/-- Number of backticks that fence a block of code: more than any run in it, and three at
least. -/
def fenceLength (s : Text) : Nat := max 3 (longestBacktickRun s + 1)

/-- So many backticks. -/
def backticks (n : Nat) : Text := List.replicate n '\x60'

/-- A code span. Blanks keep a backtick of the value apart from the delimiters. -/
def codeSpan (value : Text) : Text :=
  let delimiter := backticks (longestBacktickRun value + 1)
  let pad := if value.contains '\x60' then " ".toList else []
  delimiter ++ pad ++ value ++ pad ++ delimiter

/-- A fenced block of code. -/
def fencedBlock (lang : Option Text) (value : Text) : Text :=
  let fence := backticks (fenceLength value)
  let ending := if value.isEmpty || value.getLast? == some '\n' then [] else "\n".toList
  fence ++ lang.getD [] ++ "\n".toList ++ value ++ ending ++ fence ++ "\n".toList

/-! ## The writer -/

/-- The state of the writer. -/
structure Writer where
  /-- What has been written. -/
  output : Text
  /-- Whether the next character starts a line. -/
  atLineStart : Bool
  /-- Indentation of the further lines of the current list item. -/
  lineIndent : Nat

namespace Writer

/-- A writer that has written nothing. -/
def start : Writer := ⟨[], true, 0⟩

/-- Writes text as it stands. -/
def emit (w : Writer) (s : Text) (atLineStart : Bool) : Writer :=
  { w with output := w.output ++ s, atLineStart }

/-- Writes text, of which the further lines are indented inside a list item. -/
def push (w : Writer) (s : Text) : Writer :=
  if s.isEmpty then w
  else
    w.emit (Text.replaceChar '\n' ('\n' :: List.replicate w.lineIndent ' ') s)
      (s.getLast? == some '\n')

/-- Ends the line, unless nothing stands on it. -/
def ensureNewline (w : Writer) : Writer :=
  if !w.atLineStart && !w.output.isEmpty then w.emit "\n".toList true else w

/-- Ends the line and leaves a blank one, unless nothing has been written. -/
def ensureBlankLine (w : Writer) : Writer :=
  let w := w.ensureNewline
  if !"\n\n".toList.isSuffixOf w.output && !w.output.isEmpty then
    w.emit "\n".toList w.atLineStart
  else w

/-- Writes a code span. One that would touch a backtick is set apart by a blank. -/
def pushCodeSpan (w : Writer) (value : Text) : Writer :=
  let gap := if w.output.getLast? == some '\x60' then " ".toList else []
  w.emit (gap ++ codeSpan value) false

end Writer

/-! ## Elements -/

mutual

/-- Writes one element. An item outside a list is not written. -/
def writeNode (w : Writer) : Node → Writer
  | .heading depth children =>
    let w := w.ensureNewline
    let w := w.emit (List.replicate depth.toNat '#' ++ " ".toList) w.atLineStart
    (writeNodes w children).emit "\n".toList true
  | .paragraph children => (writeNodes w.ensureNewline children).emit "\n".toList true
  | .thematicBreak => w.ensureNewline.emit "---\n".toList true
  | .list items => { writeItems w.ensureNewline items with atLineStart := true }
  | .listItem _ => w
  | .code lang value => w.ensureNewline.emit (fencedBlock lang value) true
  | .text value => w.push value
  | .strong children => (writeNodes (w.push "**".toList) children).push "**".toList
  | .inlineCode value => w.pushCodeSpan value
  | .html value => w.push value

/-- Writes elements one after another. -/
def writeNodes (w : Writer) : List Node → Writer
  | [] => w
  | n :: rest => writeNodes (writeNode w n) rest

/-- Writes the items of a list; whatever is not an item is left out. -/
def writeItems (w : Writer) : List Node → Writer
  | [] => w
  | .listItem children :: rest =>
    let w := writeItemParts { w.emit "- ".toList false with lineIndent := 2 } true children
    writeItems { w.emit "\n".toList w.atLineStart with lineIndent := 0 } rest
  | _ :: rest => writeItems w rest

/-- Writes the parts of an item. A paragraph in an item starts a new line, unless it is the first
part, and does not end its line. -/
def writeItemParts (w : Writer) (first : Bool) : List Node → Writer
  | [] => w
  | .paragraph children :: rest =>
    let w := if first then w else w.push "\n".toList
    writeItemParts (writeNodes w children) false rest
  | n :: rest => writeItemParts (writeNode w n) false rest

end

/-- Writes blocks with a blank line between any two. -/
def writeBlocks (w : Writer) : List Node → Writer
  | [] => w
  | n :: rest => rest.foldl (fun w n => writeNode w.ensureBlankLine n) (writeNode w n)

/-- Elements without any block structure around them. -/
def inline (nodes : List Node) : Text :=
  (writeNodes { Writer.start with atLineStart := false } nodes).output

end Markdown

/-- The text of a document. -/
def Document.toMarkdown (d : Document) : Text :=
  (Markdown.writeBlocks .start d.children).ensureNewline.output

end ApiDocs
