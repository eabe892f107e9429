import ApiDocs.Text.Utf8
import ApiDocs.Docstring.Parser

/-!
# Reading docstrings one after another

A reader of docstrings remembers its most recent result, so that several questions about one
docstring read it once. A question is answered in two steps: the memory is looked up, and after
a miss the new result is stored. Other questions may come between the two.

* `Memory.lookup?`, `Memory.store`: the two steps.
* `Memory.parse`: both, one after the other.
* `Question`, `Reply`: what may be asked about a docstring, and the answers.
* `Question.ask`: an answer and the memory after it.
-/

namespace ApiDocs

/-- The most recent result of a reader, if it has read anything. -/
abbrev Memory := Option Docstring

namespace Memory

/-- The remembered result, if it is that of the given text. -/
def lookup? (m : Memory) (raw : Text) : Option Docstring := m.filter (·.raw == raw)

/-- The memory after a result. -/
def store (_ : Memory) (d : Docstring) : Memory := some d

/-- What a text documents, and the memory afterwards. -/
def parse (m : Memory) (raw : Text) : Docstring × Memory :=
  match m.lookup? raw with
  | some d => (d, m)
  | none =>
    let d := Docstring.parse raw
    (d, m.store d)

end Memory

/-- The bytes of a docstring are not text. -/
structure NotText where
  cause : Utf8.Error
  deriving DecidableEq, Repr

def NotText.message (e : NotText) : Text := "Docstring is not text: ".toList ++ e.cause.message

/-- What may be asked about a docstring. -/
inductive Question where
  /-- Everything about a docstring, which may be absent. -/
  | all (raw : Option Text)
  /-- Everything about a docstring that is given in bytes. -/
  | allOfBytes (bytes : List UInt8)
  | description (raw : Text)
  | params (raw : Text)
  | returns (raw : Text)
  | raises (raw : Text)
  | examples (raw : Text)

/-- The answer to a question. -/
inductive Reply where
  | all (d : Docstring)
  | text (t : Text)
  | params (tags : List ParamTag)
  | returns (tag : Option TypedTag)
  | raises (tags : List TypedTag)
  | notText (e : NotText)

namespace Question

/-- The text that a question is about: absent, given, or not text at all. -/
def subject : Question → Except NotText (Option Text)
  | all raw => .ok raw
  | allOfBytes bytes =>
    match Utf8.decode bytes with
    | .ok raw => .ok (some raw)
    | .error e => .error ⟨e⟩
  | description raw | params raw | returns raw | raises raw | examples raw => .ok (some raw)

/-- The answer to a question, given what its docstring documents. -/
def replyFrom : Question → Docstring → Reply
  | all _, d | allOfBytes _, d => .all d
  | description _, d => .text d.description
  | params _, d => .params d.params
  | returns _, d => .returns d.returns
  | raises _, d => .raises d.raises
  | examples _, d => .text d.examples

/-- The answer to a question and the memory after it. -/
def ask (q : Question) (m : Memory) : Reply × Memory :=
  match q.subject with
  | .error e => (.notText e, m)
  | .ok none => (q.replyFrom .empty, m)
  | .ok (some raw) =>
    let (d, m) := m.parse raw
    (q.replyFrom d, m)

/-- The answers to questions that are asked one after another. -/
def askAll : List Question → Memory → List Reply
  | [], _ => []
  | q :: rest, m =>
    let (reply, m) := q.ask m
    reply :: askAll rest m

end Question

end ApiDocs
