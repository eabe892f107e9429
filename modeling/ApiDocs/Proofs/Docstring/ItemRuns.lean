import Mathlib.Data.List.Forall2
import ApiDocs.Docstring.Item

/-!
# Items and their lines

Collecting the items of a body loses no line and takes none twice. From the first head on, the lines
that are not blank fall into runs, one for each item: the head of the item, and the lines that are
joined to its description. A line that is not deeper than the item before it either starts the next
run or, if it is no head, makes the run before it the last.

* `Item.Run`, `Item.Run.Gives`: lines in a row, and the item that they give.
* `Item.Run.Starts`: whether a line starts a new run, by the lines before it.
* `Item.Divided`: runs as they are collected, one after the other.
* `Item.exists_divided_collectFrom`: the items from a current one on come from such runs.
* `Item.collect_runs`: the runs of a body.
-/

namespace ApiDocs

namespace Item

/-- Lines in a row that make one item: its head, and the lines that continue it. -/
structure Run where
  first : Line
  more : List Line

namespace Run

def lines (r : Run) : List Line := r.first :: r.more

variable (head? : Text → Option Field.Head)

/-- The item that a run gives: its head stands in the first line, and the other lines are joined to
the description, trimmed and one after the other. -/
def Gives (r : Run) (i : Item) : Prop :=
  i.indent = r.first.indent ∧
    ∃ h, head? r.first.trimmed = some h ∧
      i.head = { h with description := appendLines h.description (r.more.map (·.trimmed)) }

/-- A line after which no run starts: neither deeper than the item nor the head of another. -/
def Breaks (r : Run) (l : Line) : Prop := l.indent ≤ r.first.indent ∧ head? l.trimmed = none

/-- Whether a line starts a new run, after the runs `done` and the lines of `current`: it is a head,
it is not deeper than the current item, and no line so far was neither deeper nor a head. -/
def Starts (done : List Run) (current : Run) (l : Line) : Prop :=
  (∀ r ∈ done ++ [current], ∀ m ∈ r.more, ¬ r.Breaks head? m) ∧
    l.indent ≤ current.first.indent ∧ (head? l.trimmed).isSome = true

/-- Whether all lines after the first are deeper than it. -/
def Deep (r : Run) : Prop := ∀ m ∈ r.more, r.first.indent < m.indent

/-- Whether a run goes on to the end of the lines, after a line that is neither deeper than its item
nor a head. -/
def Broken (r : Run) : Prop :=
  ∃ u l v, r.more = u ++ l :: v ∧ (∀ m ∈ u, r.first.indent < m.indent) ∧ r.Breaks head? l

variable {head?} {r : Run} {m : Line}

theorem Deep.not_breaks (h : r.Deep) (hm : m ∈ r.more) : ¬ r.Breaks head? m := by
  rintro ⟨hindent, -⟩
  have hdeep := h m hm
  omega

theorem Gives.continued {i : Item} (h : r.Gives head? i) (l : Line) :
    Gives head? ⟨r.first, r.more ++ [l]⟩ (i.continued l) := by
  obtain ⟨hindent, head, hhead, heq⟩ := h
  refine ⟨hindent, head, hhead, ?_⟩
  rw [Item.continued, heq, List.map_append, appendLines, appendLines, List.foldl_append]
  rfl

theorem Gives.foldl_continued {i : Item} (h : r.Gives head? i) (ls : List Line) :
    Gives head? ⟨r.first, r.more ++ ls⟩ (ls.foldl Item.continued i) := by
  induction ls generalizing r i with
  | nil => simpa using h
  | cons l ls ih => simpa using ih (h.continued l)

end Run

open Run

/-! ## Collecting run by run -/

/-- Runs as they are collected: each is followed by a head that is not deeper than its own, as long
as all its lines are deeper; the last may go on after a line that is not. -/
inductive Divided (head? : Text → Option Field.Head) : List Run → Prop
  | last {r : Run} (shape : r.Deep ∨ r.Broken head?) : Divided head? [r]
  | cons {r next : Run} {later : List Run} (deep : r.Deep)
    (indent : next.first.indent ≤ r.first.indent)
    (head : (head? next.first.trimmed).isSome = true) (rest : Divided head? (next :: later)) :
    Divided head? (r :: next :: later)

variable {head? : Text → Option Field.Head}

/-- The items from a current one on come from runs, of which the first goes on with the lines of the
current item. -/
theorem exists_divided_collectFrom {current : Run} {item : Item}
    (hgives : current.Gives head? item) (hdeep : current.Deep) (lines : List Line) :
    ∃ r later, r.first = current.first ∧
      current.lines ++ lines = (r :: later).flatMap Run.lines ∧
      List.Forall₂ (Run.Gives head?) (r :: later) (collectFrom head? item lines) ∧
      Divided head? (r :: later) := by
  fun_induction collectFrom head? item lines generalizing current with
  | case1 item =>
    exact ⟨current, [], rfl, by simp, .cons hgives .nil, .last (.inl hdeep)⟩
  | case2 item l rest hl ih =>
    -- a deeper line continues the current run
    have hlonger : Run.Deep ⟨current.first, current.more ++ [l]⟩ := by
      intro m hm
      rcases List.mem_append.mp hm with hm | hm
      · exact hdeep m hm
      · rw [List.mem_singleton.mp hm, ← hgives.1]
        exact hl
    obtain ⟨r, later, hfirst, hlines, hitems, hdivided⟩ := ih (hgives.continued l) hlonger
    refine ⟨r, later, hfirst, ?_, hitems, hdivided⟩
    rw [← hlines]
    simp [Run.lines]
  | case3 item l rest hl head hhead ih =>
    -- the current run ends above the head `l`, and the rest is divided from `l` on
    have hnew : Run.Gives head? ⟨l, []⟩ ⟨l.indent, head⟩ := ⟨rfl, head, hhead, rfl⟩
    obtain ⟨r, later, hfirst, hlines, hitems, hdivided⟩ := ih hnew (by simp [Run.Deep])
    refine ⟨current, r :: later, rfl, ?_, .cons hgives hitems, ?_⟩
    · rw [List.flatMap_cons, ← hlines]
      rfl
    · have hindent : l.indent ≤ current.first.indent := by
        rw [← hgives.1]
        omega
      refine .cons hdeep ?_ ?_ hdivided
      · rw [hfirst]
        exact hindent
      · rw [hfirst]
        exact Option.isSome_iff_exists.mpr ⟨head, hhead⟩
  | case4 item l rest hl hnone =>
    -- nothing below `l` is looked at again: all of it continues the current item
    have hbreaks : current.Breaks head? l := ⟨by rw [← hgives.1]; omega, hnone⟩
    refine ⟨⟨current.first, current.more ++ l :: rest⟩, [], rfl, by simp [Run.lines], ?_, ?_⟩
    · exact .cons (hgives.foldl_continued (l :: rest)) .nil
    · exact .last (.inr ⟨current.more, l, rest, rfl, hdeep, hbreaks⟩)

/-! ## Where runs start -/

namespace Divided

/-- Only the last run may have lines that are not deeper than its head. -/
theorem of_append {done : List Run} {r : Run} {later : List Run}
    (h : Divided head? (done ++ r :: later)) :
    (∀ q ∈ done, q.Deep) ∧ Divided head? (r :: later) := by
  induction done with
  | nil => exact ⟨by simp, h⟩
  | cons q done ih =>
    -- after a run there is another one, so the run is not the last
    have hcons : q.Deep ∧ Divided head? (done ++ r :: later) := by
      cases done with
      | nil =>
        cases h with
        | cons deep _ _ rest => exact ⟨deep, rest⟩
      | cons next done =>
        cases h with
        | cons deep _ _ rest => exact ⟨deep, rest⟩
    obtain ⟨hdone, hrest⟩ := ih hcons.2
    exact ⟨List.forall_mem_cons.mpr ⟨hcons.1, hdone⟩, hrest⟩

theorem starts_next {done : List Run} {r next : Run} {later : List Run}
    (h : Divided head? (done ++ r :: next :: later)) : Starts head? done r next.first := by
  obtain ⟨hdone, hrest⟩ := h.of_append
  cases hrest with
  | cons deep indent head _ =>
    refine ⟨?_, indent, head⟩
    intro q hq m hm
    rcases List.mem_append.mp hq with hq | hq
    · exact (hdone q hq).not_breaks hm
    · obtain rfl := List.mem_singleton.mp hq
      exact deep.not_breaks hm

/-- A line inside a run does not start another one. -/
theorem not_starts {done : List Run} {r : Run} {later : List Run}
    (h : Divided head? (done ++ r :: later)) {u v : List Line} {l : Line}
    (hmore : r.more = u ++ l :: v) : ¬ Starts head? done ⟨r.first, u⟩ l := by
  rintro ⟨hopen, hindent, hhead⟩
  have hshape : r.Deep ∨ r.Broken head? := by
    cases h.of_append.2 with
    | last shape => exact shape
    | cons deep _ _ _ => exact .inl deep
  rcases hshape with hdeep | ⟨u', l', v', hmore', hdeep, hbreaks⟩
  · have hl := hdeep l (by simp [hmore])
    have hle : l.indent ≤ r.first.indent := hindent
    omega
  · -- `l` stands above the line that breaks the run, or is that line, or stands below it
    rw [hmore] at hmore'
    rcases List.append_eq_append_iff.mp hmore' with ⟨w, hw, hlw⟩ | ⟨w, hw, hlw⟩
    · cases w with
      | nil =>
        obtain ⟨rfl, -⟩ := List.cons.inj hlw
        simp [hbreaks.2] at hhead
      | cons x w =>
        obtain ⟨rfl, -⟩ := List.cons.inj hlw
        have hl := hdeep l (by simp [hw])
        have hle : l.indent ≤ r.first.indent := hindent
        omega
    · cases w with
      | nil =>
        obtain ⟨rfl, -⟩ := List.cons.inj hlw
        simp [hbreaks.2] at hhead
      | cons x w =>
        obtain ⟨rfl, -⟩ := List.cons.inj hlw
        exact hopen ⟨r.first, u⟩ (by simp) l' (by simp [hw]) hbreaks

theorem eq_nil_of_breaks {done : List Run} {r : Run} {later : List Run}
    (h : Divided head? (done ++ r :: later)) {m : Line} (hm : m ∈ r.more)
    (hbreaks : r.Breaks head? m) : later = [] := by
  cases h.of_append.2 with
  | last _ => rfl
  | cons deep _ _ _ => exact absurd hbreaks (deep.not_breaks hm)

theorem pairwise_indent {runs : List Run} (h : Divided head? runs) :
    runs.Pairwise fun r q => q.first.indent ≤ r.first.indent := by
  induction h with
  | last _ => exact List.pairwise_singleton _ _
  | @cons r next later _ indent _ _ ih =>
    refine List.pairwise_cons.mpr ⟨?_, ih⟩
    intro q hq
    rcases List.mem_cons.mp hq with rfl | hq
    · exact indent
    · exact Nat.le_trans ((List.pairwise_cons.mp ih).1 q hq) indent

end Divided

theorem map_indent_of_gives {runs : List Run} {items : List Item}
    (h : List.Forall₂ (Run.Gives head?) runs items) :
    items.map Item.indent = runs.map (·.first.indent) := by
  induction h with
  | nil => rfl
  | cons hgives _ ih => rw [List.map_cons, List.map_cons, hgives.1, ih]

/-- The lines before the first head are dropped, and from there on the items come from runs. -/
theorem exists_divided_collectLines (head? : Text → Option Field.Head) (lines : List Line) :
    ∃ dropped runs, lines = dropped ++ runs.flatMap Run.lines ∧
      (∀ l ∈ dropped, head? l.trimmed = none) ∧
      List.Forall₂ (Run.Gives head?) runs (collectLines head? lines) ∧
      (runs = [] ∨ Divided head? runs) := by
  fun_induction collectLines head? lines with
  | case1 => exact ⟨[], [], rfl, by simp, .nil, .inl rfl⟩
  | case2 l rest head hhead =>
    have hnew : Run.Gives head? ⟨l, []⟩ ⟨l.indent, head⟩ := ⟨rfl, head, hhead, rfl⟩
    obtain ⟨r, later, -, hlines, hitems, hdivided⟩ :=
      exists_divided_collectFrom hnew (by simp [Run.Deep]) rest
    exact ⟨[], r :: later, hlines, by simp, hitems, .inr hdivided⟩
  | case3 l rest hnone ih =>
    obtain ⟨dropped, runs, hlines, hdropped, hitems, hdivided⟩ := ih
    refine ⟨l :: dropped, runs, ?_, List.forall_mem_cons.mpr ⟨hnone, hdropped⟩, hitems, hdivided⟩
    rw [hlines, List.cons_append]

/-- **No line of a body is lost or taken twice.** Without the lines before the first head, the lines
that are not blank are divided into runs, one for each item. Each run gives its item. A line starts
a new run exactly if it is a head, is not deeper than the current item, and no line so far was
neither deeper nor a head; after such a line there is no further run. Items never get deeper. -/
theorem collect_runs (head? : Text → Option Field.Head) (body : List Line) :
    ∃ dropped runs,
      body.filter (!·.isBlank) = dropped ++ runs.flatMap Run.lines ∧
      (∀ l ∈ dropped, head? l.trimmed = none) ∧
      List.Forall₂ (Run.Gives head?) runs (collect head? body) ∧
      (∀ done r later, runs = done ++ r :: later →
        (∀ u l v, r.more = u ++ l :: v → ¬ Starts head? done ⟨r.first, u⟩ l) ∧
        (∀ next ∈ later.head?, Starts head? done r next.first) ∧
        ∀ m ∈ r.more, r.Breaks head? m → later = []) ∧
      (collect head? body).Pairwise fun i j => j.indent ≤ i.indent := by
  obtain ⟨dropped, runs, hlines, hdropped, hitems, hdivided⟩ :=
    exists_divided_collectLines head? (body.filter (!·.isBlank))
  refine ⟨dropped, runs, hlines, hdropped, hitems, ?_, ?_⟩
  · rintro done r later rfl
    have h : Divided head? (done ++ r :: later) := by simpa using hdivided
    refine ⟨fun u l v hmore => h.not_starts hmore, ?_, fun m hm => h.eq_nil_of_breaks hm⟩
    intro next hnext
    obtain ⟨later, rfl⟩ := List.head?_eq_some_iff.mp hnext
    exact h.starts_next
  · have hruns : (runs.map (·.first.indent)).Pairwise fun m n => n ≤ m := by
      rcases hdivided with rfl | h
      · exact .nil
      · exact List.pairwise_map.mpr h.pairwise_indent
    rw [← map_indent_of_gives hitems] at hruns
    exact List.pairwise_map.mp hruns

/-- A body with a line before the first head, a deeper line, and a line that is neither deeper nor
a head. -/
def brokenBody : List Line :=
  Line.ofText "see below\n  a: x\n\n   y\n b: z\n or else\n c: w".toList

theorem collect_runs_broken :
    ∃ dropped runs,
      brokenBody.filter (!·.isBlank) = dropped ++ runs.flatMap Run.lines ∧
      (∀ l ∈ dropped, Field.paramHead? l.trimmed = none) ∧
      List.Forall₂ (Run.Gives Field.paramHead?) runs
        [⟨2, "a".toList, [], "x y".toList⟩, ⟨1, "b".toList, [], "z or else c: w".toList⟩] := by
  have hitems : collect Field.paramHead? brokenBody =
      [⟨2, "a".toList, [], "x y".toList⟩, ⟨1, "b".toList, [], "z or else c: w".toList⟩] := by decide
  obtain ⟨dropped, runs, hlines, hdropped, hruns, -⟩ := collect_runs Field.paramHead? brokenBody
  exact ⟨dropped, runs, hlines, hdropped, hitems ▸ hruns⟩

end Item

end ApiDocs
