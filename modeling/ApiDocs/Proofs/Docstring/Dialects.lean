import ApiDocs.Proofs.Docstring.Entries
import ApiDocs.Proofs.Docstring.Layout
import ApiDocs.Proofs.Docstring.TypeSyntax

/-!
# Dialects of docstrings

Parameters and errors can be documented under a header with a colon, under an underlined header,
or as a list of fields. Under a header it is the indentation that tells the lines of an item from
the next item; in a list of fields it is the colon in front of each field. What is read is the
same, as long as the description has no line that would open something of its own.

* `Dialect`: how items are written; `Dialect.Writes`: the texts in which they are written so.
* `Dialect.render`: one of them.
* `Dialect.sectioned`, `Dialect.underlined`, `Dialect.fieldList`: the three ways.
* `Dialect.Opens`, `Dialect.ReadsAs`, `Dialect.IsField`: what a header and an item are read as.
* `Dialect.Lines.collect_eq`: items under a header are told apart by indentation.
* `Dialect.Lines.gather_classify_eq`: each field of a list is a block of its own.
-/

namespace ApiDocs

/-! ## Texts in a dialect -/

/-- How things are documented. -/
structure Dialect (α : Type) where
  /-- The lines above all items. -/
  header : List Text
  /-- Number of spaces before the first line of an item. -/
  margin : Nat
  first : α → Text
  /-- The lines after the first, which are indented deeper than it. -/
  more : α → List Text

namespace Dialect

variable {α : Type} {d : Dialect α}

/-- A line behind white space that is wider than a margin. -/
def Indented (margin : Nat) (line written : Text) : Prop :=
  ∃ pad, Text.blank pad = true ∧ '\n' ∉ pad ∧ margin < pad.length ∧ written = pad ++ line

/-- The lines of some items. How far the lines after the first are indented may be different for
each of them. -/
inductive Lines (d : Dialect α) : List α → List Text → Prop
  | nil : Lines d [] []
  | cons {a : α} {items : List α} {below rest : List Text}
    (indented : List.Forall₂ (Indented d.margin) (d.more a) below) (others : Lines d items rest) :
    Lines d (a :: items) ((List.replicate d.margin ' ' ++ d.first a) :: (below ++ rest))

/-- The texts that document some items. -/
def Writes (d : Dialect α) (items : List α) (s : Text) : Prop :=
  ∃ lines, d.Lines items lines ∧ s = "\n".toList.intercalate (d.header ++ lines)

/-- The text that documents some items with `n` spaces before the lines after the first of each. -/
def render (d : Dialect α) (n : Nat) (items : List α) : Text :=
  "\n".toList.intercalate (d.header ++ items.flatMap fun a =>
    (List.replicate d.margin ' ' ++ d.first a) :: (d.more a).map (List.replicate n ' ' ++ ·))

/-- A declaration and, behind its colon, the first line of the description. -/
def colonLine (front : Text) (lines : List Text) : Text :=
  front ++ ':' :: (lines.head?.elim [] (' ' :: ·))

/-- `Word:`, and below it `    front: description`. -/
def sectioned (word : Text) (front : α → Text) (lines : α → List Text) : Dialect α where
  header := [word ++ ":".toList]
  margin := 4
  first a := colonLine (front a) (lines a)
  more a := (lines a).tail

/-- The title of a section with a rule under it, and below it `front` on its own. -/
def underlined (k : Section) (rule : Text) (front : α → Text) (lines : α → List Text) :
    Dialect α where
  header := [k.title, rule]
  margin := 0
  first := front
  more := lines

/-- `:keyword declared: description`. -/
def fieldList (keyword : Text) (declared : α → Text) (lines : α → List Text) : Dialect α where
  header := []
  margin := 0
  first a := colonLine (':' :: (keyword ++ ' ' :: declared a)) (lines a)
  more a := (lines a).tail

end Dialect

/-! ## Lines that open nothing -/

namespace Line

/-- Lines that are text wherever they stand. -/
structure Inert (s : Text) : Prop where
  kind : ownKind? s = none
  word : Section.ofWord? (Text.trim s) = none

theorem Inert.of_trim {s : Text} (h : Inert (Text.trim s)) : Inert s :=
  ⟨by simpa using h.kind, by simpa using h.word⟩

theorem classify_append_of_inert {xs : List Text} (h : ∀ s ∈ xs, Inert s) (rest : List Text) :
    classify (xs ++ rest) = xs.map (⟨·, .text⟩) ++ classify rest := by
  induction xs with
  | nil => rfl
  | cons s xs ih =>
    obtain ⟨hkind, hword⟩ := h s List.mem_cons_self
    rw [List.cons_append, classify_cons_text hkind (by simp [hword]),
      ih fun t ht => h t (List.mem_cons_of_mem _ ht), List.map_cons, List.cons_append]

theorem classify_of_inert {xs : List Text} (h : ∀ s ∈ xs, Inert s) :
    classify xs = xs.map (⟨·, .text⟩) := by
  have happend := classify_append_of_inert h []
  rwa [List.append_nil, classify, List.append_nil] at happend

theorem split_intercalate {ls : List Text} (hne : ls ≠ []) (h : ∀ l ∈ ls, split l = [l]) :
    split ("\n".toList.intercalate ls) = ls := by
  obtain ⟨first, more, rfl⟩ := List.exists_cons_of_ne_nil hne
  induction more generalizing first with
  | nil => simpa using h
  | cons next more ih =>
    have hjoin : "\n".toList.intercalate (first :: next :: more) =
        first ++ '\n' :: "\n".toList.intercalate (next :: more) := by
      rw [List.intercalate_cons_cons]
      simp
    rw [hjoin, split_append, h first List.mem_cons_self,
      ih next (by simp) fun l hl => h l (List.mem_cons_of_mem _ hl), List.singleton_append]

end Line

namespace Block

theorem gather_text_append (xs : List Text) (rest : List Line) :
    gather (xs.map (⟨·, .text⟩) ++ rest) =
      (xs.map (⟨·, .text⟩) ++ (gather rest).1, (gather rest).2) := by
  induction xs with
  | nil => rfl
  | cons s xs ih =>
    rw [List.map_cons, List.cons_append, gather_cons_of_not_opens rfl, ih, List.cons_append]

theorem filter_text {p : Line → Bool} (hp : ∀ s, p ⟨s, .text⟩ = true) (xs : List Text) :
    (xs.map (⟨·, .text⟩ : Text → Line)).filter p = xs.map (⟨·, .text⟩) := by
  rw [List.filter_eq_self]
  intro l hl
  obtain ⟨s, -, rfl⟩ := List.mem_map.mp hl
  exact hp s

theorem ownedLines_text (xs : List Text) :
    ownedLines (xs.map (⟨·, .text⟩)) = xs.map (⟨·, .text⟩) :=
  filter_text (fun _ => rfl) xs

/-- The lines under a header are the body of a section. -/
theorem gather_header (k : Section) (s : Text) {ls : List Line} (h : ∀ l ∈ ls, l.opens = false) :
    gather (⟨s, .header k⟩ :: ls) = ([], [body k (ownedLines ls)]) := by
  simp only [gather, gather_of_forall_not_opens h, opened?]

theorem opens_text {xs : List Text} : ∀ l ∈ xs.map (⟨·, .text⟩ : Text → Line), l.opens = false := by
  intro l hl
  obtain ⟨s, -, rfl⟩ := List.mem_map.mp hl
  rfl

theorem gather_header_text (k : Section) (s : Text) (xs : List Text) :
    gather (⟨s, .header k⟩ :: xs.map (⟨·, .text⟩)) = ([], [body k (xs.map (⟨·, .text⟩))]) := by
  rw [gather_header k s opens_text, ownedLines_text]

/-- A rule under the header does not belong to the body. -/
theorem gather_underlined_text (k : Section) (s rule : Text) (xs : List Text) :
    gather (⟨s, .header k⟩ :: ⟨rule, .underline⟩ :: xs.map (⟨·, .text⟩)) =
      ([], [body k (xs.map (⟨·, .text⟩))]) := by
  have howned : ownedLines (⟨rule, .underline⟩ :: xs.map (⟨·, .text⟩)) = xs.map (⟨·, .text⟩) := by
    rw [ownedLines, List.filter_cons_of_neg (by simp)]
    exact ownedLines_text xs
  rw [gather_header k s (List.forall_mem_cons.mpr ⟨rfl, opens_text⟩), howned]

end Block

/-! ## Lines behind white space -/

/-- White space in front of a line is its indentation and nothing else. -/
theorem Text.TrimmedLine.padded_spec {pad l : Text} (hl : Text.TrimmedLine l)
    (hblank : Text.blank pad = true) (hline : '\n' ∉ pad) :
    Text.trim (pad ++ l) = l ∧ Text.indent (pad ++ l) = pad.length ∧
      Line.split (pad ++ l) = [pad ++ l] := by
  obtain ⟨c, cs, rfl⟩ := List.exists_cons_of_ne_nil hl.ne_nil
  have hc : Text.isBlank c = false := (Text.trim_eq_self_iff.mp hl.trimmed).1 c rfl
  refine ⟨?_, ?_, ?_⟩
  · rw [Text.trim_blank_append hblank, hl.trimmed]
  · rw [Text.indent_blank_append hblank, Text.indent_cons_of_not_blank hc, Nat.add_zero]
  · have hnl : '\n' ∉ pad ++ c :: cs := by
      simpa using ⟨hline, by simpa using hl.line⟩
    have hlast : (pad ++ c :: cs).getLast? ≠ some '\r' := by
      rw [List.getLast?_append_of_ne_nil _ (by simp)]
      exact fun hr => absurd ((Text.trim_eq_self_iff.mp hl.trimmed).2 _ hr) (by decide)
    rw [Line.split, List.splitOn_eq_singleton hnl, List.map_singleton,
      Line.dropReturn_eq_self_iff.mpr hlast]

theorem Text.blank_replicate (n : Nat) : Text.blank (List.replicate n ' ') = true := by
  simp [Text.blank, Text.isBlank_space]

theorem Text.TrimmedLine.replicate_spec {l : Text} (hl : Text.TrimmedLine l) (n : Nat) :
    Text.trim (List.replicate n ' ' ++ l) = l ∧ Text.indent (List.replicate n ' ' ++ l) = n ∧
      Line.split (List.replicate n ' ' ++ l) = [List.replicate n ' ' ++ l] := by
  obtain ⟨htrim, hindent, hsplit⟩ := hl.padded_spec (Text.blank_replicate n) (by simp)
  exact ⟨htrim, hindent.trans List.length_replicate, hsplit⟩

namespace Dialect

variable {α : Type} {d : Dialect α} {items : List α} {lines : List Text}

/-- Lines of a description: no section word, no header and no field. -/
structure PlainLine (l : Text) : Prop extends Text.TrimmedLine l where
  word : Section.ofWord? l = none
  header : Line.colonHeader? l = none
  field : Line.fieldSection? l = none

theorem PlainLine.inert {l : Text} (h : PlainLine l) : Line.Inert l := by
  refine ⟨?_, h.trimmed.symm ▸ h.word⟩
  simp [Line.ownKind?, h.blank_eq_false, h.header, h.field]

theorem Indented.spec {n : Nat} {l w : Text} (h : Indented n l w) (hl : Text.TrimmedLine l) :
    Text.trim w = l ∧ n < Text.indent w ∧ Line.split w = [w] := by
  obtain ⟨pad, hblank, hline, hdeeper, rfl⟩ := h
  obtain ⟨htrim, hindent, hsplit⟩ := hl.padded_spec hblank hline
  exact ⟨htrim, hindent ▸ hdeeper, hsplit⟩

theorem writes_render {n : Nat} (hn : d.margin < n) (items : List α) :
    d.Writes items (d.render n items) := by
  refine ⟨_, ?_, rfl⟩
  have hindented : ∀ ls : List Text,
      List.Forall₂ (Indented d.margin) ls (ls.map (List.replicate n ' ' ++ ·)) := by
    intro ls
    rw [List.forall₂_map_right_iff, List.forall₂_same]
    rintro l -
    exact ⟨List.replicate n ' ', Text.blank_replicate n, by simp, by simpa using hn, rfl⟩
  induction items with
  | nil => exact .nil
  | cons a items ih =>
    rw [List.flatMap_cons, List.cons_append]
    exact .cons (hindented (d.more a)) ih

/-! ## Lines of one item -/

theorem exists_indented_of_mem {n : Nat} {ls ws : List Text}
    (h : List.Forall₂ (Indented n) ls ws) : ∀ w ∈ ws, ∃ l ∈ ls, Indented n l w := by
  induction h with
  | nil => simp
  | @cons l w ls ws hw _ ih =>
    intro v hv
    rcases List.mem_cons.mp hv with rfl | hv
    · exact ⟨l, List.mem_cons_self, hw⟩
    · obtain ⟨m, hm, hindented⟩ := ih v hv
      exact ⟨m, List.mem_cons_of_mem _ hm, hindented⟩

/-- What holds of the lines of each item, whatever their indentation, holds of all lines. -/
theorem Lines.forall_mem {P : Text → Prop} (h : d.Lines items lines)
    (hfirst : ∀ a ∈ items, P (List.replicate d.margin ' ' ++ d.first a))
    (hmore : ∀ a ∈ items, ∀ l ∈ d.more a, ∀ w, Indented d.margin l w → P w) :
    ∀ l ∈ lines, P l := by
  induction h with
  | nil => simp
  | @cons a items below rest hbelow _ ih =>
    intro l hl
    rcases List.mem_cons.mp hl with rfl | hl
    · exact hfirst a List.mem_cons_self
    · rcases List.mem_append.mp hl with hl | hl
      · obtain ⟨m, hm, hindented⟩ := exists_indented_of_mem hbelow l hl
        exact hmore a List.mem_cons_self m hm l hindented
      · exact ih (fun b hb => hfirst b (List.mem_cons_of_mem _ hb))
          (fun b hb => hmore b (List.mem_cons_of_mem _ hb)) l hl

theorem map_trim_of_indented {n : Nat} {ls ws : List Text}
    (h : List.Forall₂ (Indented n) ls ws) (hls : ∀ l ∈ ls, PlainLine l) :
    ws.map Text.trim = ls := by
  induction h with
  | nil => rfl
  | @cons l w ls ws hw _ ih =>
    rw [List.map_cons, (hw.spec (hls l List.mem_cons_self).toTrimmedLine).1,
      ih fun m hm => hls m (List.mem_cons_of_mem _ hm)]

theorem PlainLine.inert_of_indented {n : Nat} {l w : Text} (hl : PlainLine l)
    (h : Indented n l w) : Line.Inert w :=
  .of_trim ((h.spec hl.toTrimmedLine).1.symm ▸ hl.inert)

/-- The item `a` is written on lines of its own. -/
structure Laid (d : Dialect α) (a : α) : Prop where
  first : Text.TrimmedLine (d.first a)
  more : ∀ l ∈ d.more a, PlainLine l

theorem Laid.first_spec {a : α} (ha : d.Laid a) :
    Text.trim (List.replicate d.margin ' ' ++ d.first a) = d.first a ∧
      Text.indent (List.replicate d.margin ' ' ++ d.first a) = d.margin ∧
      Line.split (List.replicate d.margin ' ' ++ d.first a) =
        [List.replicate d.margin ' ' ++ d.first a] :=
  ha.first.replicate_spec d.margin

theorem Lines.split_eq (hitems : ∀ a ∈ items, d.Laid a) (h : d.Lines items lines) :
    ∀ l ∈ lines, Line.split l = [l] := by
  refine h.forall_mem (fun a ha => (hitems a ha).first_spec.2.2) fun a ha l hl w hw => ?_
  exact (hw.spec ((hitems a ha).more l hl).toTrimmedLine).2.2

/-! ## Items under a header -/

/-- The item `a` is written so that, under a header, it is read as `head`. -/
structure ReadsAs (d : Dialect α) (head? : Text → Option Field.Head) (a : α) (head : Field.Head) :
    Prop extends d.Laid a where
  inert : Line.Inert (d.first a)
  reads : ∃ inline, head? (d.first a) = some { head with description := inline } ∧
    Item.appendLines inline (d.more a) = head.description

variable {head? : Text → Option Field.Head} {head : α → Field.Head}

theorem Lines.inert (hitems : ∀ a ∈ items, d.ReadsAs head? a (head a)) (h : d.Lines items lines) :
    ∀ l ∈ lines, Line.Inert l := by
  refine h.forall_mem (fun a ha => ?_) fun a ha l hl w hw => ?_
  · exact .of_trim ((hitems a ha).first_spec.1.symm ▸ (hitems a ha).inert)
  · exact ((hitems a ha).more l hl).inert_of_indented hw

/-- The first line of an item starts it, and the lines below complete its description. -/
theorem ReadsAs.collectFrom_below {a : α} {h : Field.Head} (ha : d.ReadsAs head? a h)
    {below : List Text} (hbelow : List.Forall₂ (Indented d.margin) (d.more a) below) :
    ∃ start, head? (d.first a) = some start ∧ ∀ rest : List Text,
      Item.collectFrom head? ⟨d.margin, start⟩ ((below ++ rest).map (⟨·, .text⟩)) =
        Item.collectFrom head? ⟨d.margin, h⟩ (rest.map (⟨·, .text⟩)) := by
  obtain ⟨inline, hstart, hdescription⟩ := ha.reads
  have hdeep : ∀ w ∈ below, d.margin < Text.indent w := by
    intro w hw
    obtain ⟨l, hl, hindented⟩ := exists_indented_of_mem hbelow w hw
    exact (hindented.spec (ha.more l hl).toTrimmedLine).2.1
  refine ⟨_, hstart, fun rest => ?_⟩
  rw [List.map_append, Item.collectFrom_deeper head? _ hdeep, map_trim_of_indented hbelow ha.more,
    hdescription]

theorem Lines.collectFrom_eq (hitems : ∀ a ∈ items, d.ReadsAs head? a (head a))
    (h : d.Lines items lines) (item : Item) (hitem : item.indent = d.margin) :
    Item.collectFrom head? item (lines.map (⟨·, .text⟩)) =
      item :: items.map fun a => ⟨d.margin, head a⟩ := by
  induction h generalizing item with
  | nil => rfl
  | @cons a items below rest hbelow _ ih =>
    have ha := hitems a List.mem_cons_self
    obtain ⟨htrim, hindent, -⟩ := ha.first_spec
    obtain ⟨start, hstart, hmore⟩ := ha.collectFrom_below hbelow
    -- a line at the margin ends the item before it
    have hnext : ¬ item.indent < d.margin := by omega
    simp only [List.map_cons, Item.collectFrom, Line.indent, Line.trimmed, hindent, hnext, if_false,
      htrim, hstart]
    rw [hmore rest, ih (fun b hb => hitems b (List.mem_cons_of_mem _ hb)) _ rfl]

/-- Items under a header are told apart by their indentation. -/
theorem Lines.collect_eq (hitems : ∀ a ∈ items, d.ReadsAs head? a (head a))
    (h : d.Lines items lines) :
    Item.collect head? (lines.map (⟨·, .text⟩)) = items.map fun a => ⟨d.margin, head a⟩ := by
  rw [Item.collect, Block.filter_text fun _ => rfl]
  cases h with
  | nil => rfl
  | @cons a items below rest hbelow hothers =>
    have ha := hitems a List.mem_cons_self
    obtain ⟨htrim, hindent, -⟩ := ha.first_spec
    obtain ⟨start, hstart, hmore⟩ := ha.collectFrom_below hbelow
    simp only [List.map_cons, Item.collectLines, Line.indent, Line.trimmed, htrim, hindent, hstart]
    rw [hmore rest, hothers.collectFrom_eq (fun b hb => hitems b (List.mem_cons_of_mem _ hb)) _ rfl]

/-- The header of the dialect opens the section `k`. -/
structure Opens (d : Dialect α) (k : Section) : Prop where
  ne_nil : d.header ≠ []
  line : ∀ l ∈ d.header, Line.split l = [l]
  gather : ∀ xs : List Text, (∀ s ∈ xs, Line.Inert s) →
    Block.gather (Line.classify (d.header ++ xs)) = ([], [.body k (xs.map (⟨·, .text⟩))])

theorem Writes.gather_body {k : Section} {s : Text} (hopens : d.Opens k)
    (hitems : ∀ a ∈ items, d.ReadsAs head? a (head a)) (h : d.Writes items s) :
    ∃ body, Block.gather (Line.ofText s) = ([], [.body k body]) ∧
      Item.collect head? body = items.map fun a => ⟨d.margin, head a⟩ := by
  obtain ⟨lines, hlines, rfl⟩ := h
  have hsplit : Line.split ("\n".toList.intercalate (d.header ++ lines)) = d.header ++ lines := by
    refine Line.split_intercalate (by simp [hopens.ne_nil]) fun l hl => ?_
    rcases List.mem_append.mp hl with hl | hl
    · exact hopens.line l hl
    · exact hlines.split_eq (fun a ha => (hitems a ha).toLaid) l hl
  refine ⟨_, ?_, hlines.collect_eq hitems⟩
  rw [Line.ofText, hsplit, hopens.gather lines (hlines.inert hitems)]

/-! ## Items in a list of fields -/

/-- The item `a` is written as a field of section `k`. -/
structure IsField (d : Dialect α) (k : Section) (a : α) : Prop extends d.Laid a where
  kind : Line.ownKind? (d.first a) = some (.field k)

/-- Each field of a list is a block of its own. -/
theorem Lines.gather_classify_eq {k : Section} (hitems : ∀ a ∈ items, d.IsField k a)
    (h : d.Lines items lines) :
    Block.gather (Line.classify lines) =
      ([], items.map fun a => .field k (d.first a) (d.more a)) := by
  induction h with
  | nil => rfl
  | @cons a items below rest hbelow _ ih =>
    have ha := hitems a List.mem_cons_self
    obtain ⟨htrim, -, -⟩ := ha.first_spec
    have hinert : ∀ w ∈ below, Line.Inert w := by
      intro w hw
      obtain ⟨l, hl, hindented⟩ := exists_indented_of_mem hbelow w hw
      exact (ha.more l hl).inert_of_indented hindented
    have hkind : Line.ownKind? (List.replicate d.margin ' ' ++ d.first a) = some (.field k) := by
      rw [← Line.ownKind?_trim, htrim, ha.kind]
    -- no line below is blank, so that all of them belong to the field
    have howned : ((Block.ownedLines (below.map (⟨·, .text⟩))).takeWhile (!·.isBlank)).map
        (·.trimmed) = d.more a := by
      rw [Block.ownedLines_text, List.takeWhile_eq_self_iff.mpr fun l hl => ?_, List.map_map]
      · exact map_trim_of_indented hbelow ha.more
      · obtain ⟨w, -, rfl⟩ := List.mem_map.mp hl
        rfl
    rw [Line.classify_cons_of_ownKind? hkind, Line.classify_append_of_inert hinert, Block.gather,
      Block.gather_text_append, ih fun b hb => hitems b (List.mem_cons_of_mem _ hb)]
    have htrimmed : Line.trimmed ⟨List.replicate d.margin ' ' ++ d.first a, .field k⟩ = d.first a :=
      htrim
    simp only [Block.opened?, List.append_nil, howned, htrimmed, List.map_cons]

theorem Writes.gather_fields {k : Section} {s : Text} (hheader : d.header = [])
    (hitems : ∀ a ∈ items, d.IsField k a) (h : d.Writes items s) :
    (Block.gather (Line.ofText s)).2 = items.map (fun a => .field k (d.first a) (d.more a)) ∧
      (Docstring.parse s).description = [] := by
  obtain ⟨lines, hlines, rfl⟩ := h
  rw [hheader, List.nil_append]
  by_cases hne : lines = []
  · -- without items there is one blank line
    cases hlines with
    | nil => exact ⟨rfl, by decide⟩
    | cons => cases hne
  · have hsplit := Line.split_intercalate hne (hlines.split_eq fun a ha => (hitems a ha).toLaid)
    have hgather := hlines.gather_classify_eq hitems
    simp only [Docstring.parse, Line.ofText, hsplit, hgather]
    exact ⟨trivial, rfl⟩

/-! ## The three ways -/

section Ways

variable {front : α → Text} {written : α → List Text} {a : α} {h : Field.Head} {k : Section}
  {word : Text}

theorem appendLines_head?_tail (ls : List Text) :
    Item.appendLines (ls.head?.getD []) ls.tail = Item.appendLines [] ls := by
  cases ls with
  | nil => rfl
  | cons l ls => simp [Item.appendLines, Item.appendLine]

theorem trim_inline {ls : List Text} (hls : ∀ l ∈ ls, PlainLine l) :
    Text.trim (ls.head?.elim [] (' ' :: ·)) = ls.head?.getD [] := by
  cases ls with
  | nil => rfl
  | cons l ls => simp [Text.trim_cons_blank, (hls l List.mem_cons_self).trimmed]

theorem trimmedLine_colonLine {s : Text} {ls : List Text} (hs : Text.TrimmedLine s)
    (hls : ∀ l ∈ ls, PlainLine l) : Text.TrimmedLine (colonLine s ls) := by
  have hcolon : Text.TrimmedLine [':'] := ⟨by simp, by decide, by simp⟩
  have hsame : s ++ [] ++ [':'] = s ++ [':'] := by simp
  have hdeclaration := hsame ▸ hs.append hcolon (by simp : '\n' ∉ [])
  cases ls with
  | nil => exact hdeclaration
  | cons l ls =>
    have hl := (hls l List.mem_cons_self).toTrimmedLine
    simpa [colonLine] using hdeclaration.append hl (by simp : '\n' ∉ [' '])

theorem opens_sectioned (hline : Line.split (word ++ ":".toList) = [word ++ ":".toList])
    (hkind : Line.ownKind? (word ++ ":".toList) = some (.header k)) :
    (sectioned word front written).Opens k := by
  refine ⟨by simp [sectioned], by simpa [sectioned] using hline, fun xs hxs => ?_⟩
  simp only [sectioned, List.singleton_append]
  rw [Line.classify_cons_of_ownKind? hkind, Line.classify_of_inert hxs, Block.gather_header_text]

theorem split_of_isUnderline {rule : Text} (hrule : Line.isUnderline rule = true)
    (htrim : Text.trim rule = rule) : Line.split rule = [rule] := by
  simp only [Line.isUnderline, htrim, Bool.and_eq_true, Bool.or_eq_true, List.all_eq_true,
    beq_iff_eq] at hrule
  have hmark : ∀ c ∈ rule, c = '-' ∨ c = '=' := by
    intro c hc
    exact hrule.2.imp (fun hall => hall c hc) fun hall => hall c hc
  apply Line.split_of_line
  · exact fun hnl => by simpa using hmark _ hnl
  · exact fun hcr => by simpa using hmark _ hcr

theorem opens_underlined {rule : Text} (hrule : Line.isUnderline rule = true)
    (htrim : Text.trim rule = rule) (k : Section) :
    (underlined k rule front written).Opens k := by
  have htitle : Line.split k.title = [k.title] ∧
      Section.ofWord? (Text.trim k.title) = some k := by
    cases k <;> decide
  refine ⟨by simp [underlined], ?_, fun xs hxs => ?_⟩
  · simp [underlined, htitle.1, split_of_isUnderline hrule htrim]
  · simp only [underlined, List.cons_append, List.nil_append]
    rw [Line.classify_cons_underlined htitle.2 hrule, Line.classify_of_inert hxs,
      Block.gather_underlined_text]

theorem readsAs_sectioned (hfront : Text.TrimmedLine (front a))
    (hhead : (front a).head? ≠ some ':') (hword : Section.ofWord? (front a) = none)
    (hlines : ∀ l ∈ written a, PlainLine l)
    (hreads : ∀ rest, head? (front a ++ ':' :: rest) =
      some { h with description := Text.trim rest })
    (hdescription : h.description = Item.appendLines [] (written a)) :
    (sectioned word front written).ReadsAs head? a h := by
  have hfirst := trimmedLine_colonLine hfront hlines
  refine ⟨⟨hfirst, fun l hl => hlines l (List.mem_of_mem_tail hl)⟩, ⟨?_, ?_⟩, ?_⟩
  · exact Line.ownKind?_of_colon hfront hhead hword hfirst.trimmed
  · simp only [sectioned]
    rw [hfirst.trimmed]
    exact Section.ofWord?_eq_none_of_mem (c := ':') (by simp [colonLine]) (by decide)
  · refine ⟨(written a).head?.getD [], ?_, ?_⟩
    · rw [← trim_inline hlines]
      exact hreads _
    · rw [hdescription]
      exact appendLines_head?_tail (written a)

theorem readsAs_underlined {rule : Text} (hfront : Text.TrimmedLine (front a))
    (hhead : (front a).head? ≠ some ':') (hlast : (front a).getLast? ≠ some ':')
    (hword : Section.ofWord? (front a) = none) (hlines : ∀ l ∈ written a, PlainLine l)
    (hreads : head? (front a) = some { h with description := [] })
    (hdescription : h.description = Item.appendLines [] (written a)) :
    (underlined k rule front written).ReadsAs head? a h := by
  refine ⟨⟨hfront, hlines⟩, ⟨?_, ?_⟩, [], hreads, hdescription.symm⟩
  · apply Line.ownKind?_eq_none hfront.blank_eq_false
    · exact hfront.trimmed.symm ▸ hhead
    · exact hfront.trimmed.symm ▸ hlast
  · exact hfront.trimmed.symm ▸ hword

theorem isField_fieldList (hword : Line.Keyword word k) (hdeclared : Field.Declarable (front a))
    (hlines : ∀ l ∈ written a, PlainLine l) :
    (fieldList word front written).IsField k a ∧
      Block.declaration? ((fieldList word front written).first a)
        ((fieldList word front written).more a) =
        some (front a, Item.appendLines [] (written a)) := by
  have hcolon : Text.TrimmedLine [':'] := ⟨by simp, by decide, by simp⟩
  have hboth := (hword.declarable.spaced hdeclared).toTrimmedLine
  have hfront : Text.TrimmedLine (':' :: (word ++ ' ' :: front a)) := by
    simpa using hcolon.append hboth (by simp : '\n' ∉ [])
  have hfirst := trimmedLine_colonLine hfront hlines
  refine ⟨⟨⟨hfirst, fun l hl => hlines l (List.mem_of_mem_tail hl)⟩, ?_⟩, ?_⟩
  · exact Line.ownKind?_of_keyword hword hdeclared hfirst.trimmed
  · rw [← appendLines_head?_tail, ← trim_inline hlines]
    exact Block.declaration?_of_keyword hword hdeclared _ _

end Ways

end Dialect

end ApiDocs
