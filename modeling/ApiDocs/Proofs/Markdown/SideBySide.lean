import Mathlib.Data.List.Basic
import ApiDocs.Markdown.Writer

/-!
# Two writers side by side

An element is written by a few operations on the state of the writer, whatever its kind and however
deep it nests. So a relation between two writers that holds on after each of these operations, when
both writers do the same, holds on after any element. A property of one writer is such a relation
too, between the writer and any other.

* `Markdown.Keeps`: relations that the operations of the writer keep.
* `Markdown.Keeps.writeNode`, `Markdown.Keeps.writeNodes`: they are kept whatever is written.
-/

namespace ApiDocs

namespace Markdown

/-- The relation still holds when both writers take the same step. -/
structure Keeps (R : Writer → Writer → Prop) : Prop where
  emit : ∀ {w v : Writer} {s : Text}, R w v → s ≠ [] → ∀ b, R (w.emit s b) (v.emit s b)
  emitInLine : ∀ {w v : Writer} {s : Text}, R w v → s ≠ [] →
    R (w.emit s w.atLineStart) (v.emit s v.atLineStart)
  push : ∀ {w v : Writer}, R w v → ∀ s, R (w.push s) (v.push s)
  pushCodeSpan : ∀ {w v : Writer}, R w v → ∀ s, R (w.pushCodeSpan s) (v.pushCodeSpan s)
  ensureNewline : ∀ {w v : Writer}, R w v → R w.ensureNewline v.ensureNewline
  startLine : ∀ {w v : Writer}, R w v →
    R { w with atLineStart := true } { v with atLineStart := true }
  withIndent : ∀ {w v : Writer}, R w v → ∀ n,
    R { w with lineIndent := n } { v with lineIndent := n }

mutual

theorem Keeps.writeNode {R : Writer → Writer → Prop} (hR : Keeps R) {w v : Writer} (h : R w v) :
    ∀ n : Node, R (writeNode w n) (writeNode v n)
  | .heading depth children => by
    rw [Markdown.writeNode, Markdown.writeNode]
    have hmarks := hR.emitInLine (hR.ensureNewline h)
      (s := List.replicate depth.toNat '#' ++ " ".toList) (by simp)
    exact hR.emit (hR.writeNodes hmarks children) (by simp) true
  | .paragraph children => by
    rw [Markdown.writeNode, Markdown.writeNode]
    exact hR.emit (hR.writeNodes (hR.ensureNewline h) children) (by simp) true
  | .thematicBreak => by
    rw [Markdown.writeNode, Markdown.writeNode]
    exact hR.emit (hR.ensureNewline h) (by simp) true
  | .list items => by
    rw [Markdown.writeNode, Markdown.writeNode]
    exact hR.startLine (hR.writeItems (hR.ensureNewline h) items)
  | .listItem _ => by
    rw [Markdown.writeNode, Markdown.writeNode]
    exact h
  | .code lang value => by
    rw [Markdown.writeNode, Markdown.writeNode]
    exact hR.emit (hR.ensureNewline h) (by simp [fencedBlock]) true
  | .text value | .html value => by
    rw [Markdown.writeNode, Markdown.writeNode]
    exact hR.push h value
  | .strong children => by
    rw [Markdown.writeNode, Markdown.writeNode]
    exact hR.push (hR.writeNodes (hR.push h _) children) _
  | .inlineCode value => by
    rw [Markdown.writeNode, Markdown.writeNode]
    exact hR.pushCodeSpan h value

theorem Keeps.writeNodes {R : Writer → Writer → Prop} (hR : Keeps R) {w v : Writer} (h : R w v) :
    ∀ ns : List Node, R (writeNodes w ns) (writeNodes v ns)
  | [] => by
    rw [Markdown.writeNodes, Markdown.writeNodes]
    exact h
  | n :: rest => by
    rw [Markdown.writeNodes, Markdown.writeNodes]
    exact hR.writeNodes (hR.writeNode h n) rest

theorem Keeps.writeItems {R : Writer → Writer → Prop} (hR : Keeps R) {w v : Writer} (h : R w v) :
    ∀ ns : List Node, R (writeItems w ns) (writeItems v ns)
  | [] => by
    rw [Markdown.writeItems, Markdown.writeItems]
    exact h
  | .listItem children :: rest => by
    rw [Markdown.writeItems, Markdown.writeItems]
    have hopened := hR.withIndent (hR.emit h (s := "- ".toList) (by simp) false) 2
    have hparts := hR.writeItemParts hopened true children
    have hended := hR.withIndent (hR.emitInLine hparts (s := "\n".toList) (by simp)) 0
    exact hR.writeItems hended rest
  | .heading .. :: rest | .paragraph .. :: rest | .thematicBreak :: rest | .list .. :: rest
  | .code .. :: rest | .text .. :: rest | .strong .. :: rest | .inlineCode .. :: rest
  | .html .. :: rest => by
    rw [Markdown.writeItems, Markdown.writeItems]
    · exact hR.writeItems h rest
    · simp
    · simp

theorem Keeps.writeItemParts {R : Writer → Writer → Prop} (hR : Keeps R) {w v : Writer}
    (h : R w v) (first : Bool) :
    ∀ ns : List Node, R (writeItemParts w first ns) (writeItemParts v first ns)
  | [] => by
    rw [Markdown.writeItemParts, Markdown.writeItemParts]
    exact h
  | .paragraph children :: rest => by
    rw [Markdown.writeItemParts, Markdown.writeItemParts]
    have hline : R (if first then w else w.push "\n".toList)
        (if first then v else v.push "\n".toList) := by
      split
      · exact h
      · exact hR.push h _
    exact hR.writeItemParts (hR.writeNodes hline children) false rest
  | .heading .. :: rest | .listItem .. :: rest | .thematicBreak :: rest | .list .. :: rest
  | .code .. :: rest | .text .. :: rest | .strong .. :: rest | .inlineCode .. :: rest
  | .html .. :: rest => by
    rw [Markdown.writeItemParts, Markdown.writeItemParts]
    · exact hR.writeItemParts (hR.writeNode h _) false rest
    · simp
    · simp

end

end Markdown

end ApiDocs
