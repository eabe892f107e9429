import ApiDocs.Package.Container
import ApiDocs.Proofs.Json.RoundTrip

/-!
# How deeply manifests nest

The reader of JSON text is told how deeply collections may nest, and no value that it gives nests
deeper. A member inside another takes two more levels of a manifest, the array of members and the
record in it. So the trees of members that manifests stand for are not high.

* `Json.depth`: how deeply a value nests.
* `Json.depth_of_read?`: what is read from text does not nest deeper than the reader is told.
* `Member.height`: how many levels of members there are below a member.
* `Container.height_of_read?`: the height of the members of a manifest.
-/

namespace ApiDocs

namespace Json

/-! ## Nesting -/

mutual

/-- How many collections are nested in a value, itself included. -/
def depth : Json → Nat
  | array xs => depthOfElements xs + 1
  | object fields => depthOfFields fields + 1
  | null | bool _ | integer _ | numeral _ | string _ | unreadable => 0

def depthOfElements : List Json → Nat
  | [] => 0
  | j :: rest => max (depth j) (depthOfElements rest)

def depthOfFields : List (Text × Json) → Nat
  | [] => 0
  | (_, j) :: rest => max (depth j) (depthOfFields rest)

end

theorem depth_le_depthOfElements {xs : List Json} {j : Json} (h : j ∈ xs) :
    j.depth ≤ depthOfElements xs := by
  induction xs with
  | nil => simp at h
  | cons x xs ih =>
    rw [depthOfElements]
    rcases List.mem_cons.mp h with rfl | h
    · exact Nat.le_max_left _ _
    · exact Nat.le_trans (ih h) (Nat.le_max_right _ _)

theorem depth_le_depthOfFields {fields : List (Text × Json)} {f : Text × Json} (h : f ∈ fields) :
    f.2.depth ≤ depthOfFields fields := by
  induction fields with
  | nil => simp at h
  | cons x fields ih =>
    rw [depthOfFields]
    rcases List.mem_cons.mp h with rfl | h
    · exact Nat.le_max_left _ _
    · exact Nat.le_trans (ih h) (Nat.le_max_right _ _)

/-! ## Reading -/

namespace Reader

theorem depth_of_number? {s rest : Text} {j : Json} (h : number? s = some (j, rest)) :
    j.depth = 0 := by
  simp only [number?, Option.bind_eq_bind, Option.bind_eq_some_iff] at h
  obtain ⟨⟨whole, rest⟩, -, ⟨fraction, rest⟩, -, ⟨exponent, rest⟩, -, h⟩ := h
  -- an integer or a numeral, whatever its parts are
  repeat' split at h
  all_goals
    cases h
    rfl

theorem depth_collected {depth : Nat} {value : Option Json}
    (h : ∀ j ∈ value, j.depth ≤ depth - 1 + 1) : (collected depth value).depth ≤ depth := by
  cases depth with
  | zero => exact Nat.le_refl 0
  | succ n =>
    cases value with
    | none => exact Nat.zero_le _
    | some j => exact h j rfl

/-- Whatever a reader with some fuel gives nests no deeper than it is told. -/
structure Bounded (fuel : Nat) : Prop where
  value : ∀ {depth s j rest}, value? fuel depth s = some (j, rest) → j.depth ≤ depth
  elements : ∀ {depth s xs rest}, elements? fuel depth s = some (xs, rest) →
    depthOfElements xs ≤ depth
  fields : ∀ {depth s fields rest}, fields? fuel depth s = some (some fields, rest) →
    depthOfFields fields ≤ depth

namespace Bounded

variable {fuel depth : Nat} {s rest : Text}

theorem depth_array (h : Bounded fuel) {xs : List Json}
    (hxs : elements? fuel (depth - 1) s = some (xs, rest)) :
    (collected depth (array xs)).depth ≤ depth := by
  refine depth_collected fun j hj => ?_
  cases hj
  exact Nat.succ_le_succ (h.elements hxs)

theorem depth_object (h : Bounded fuel) {fields : Option (List (Text × Json))}
    (hfields : fields? fuel (depth - 1) s = some (fields, rest)) :
    (collected depth (fields.map object)).depth ≤ depth := by
  refine depth_collected fun j hj => ?_
  obtain ⟨fs, rfl, rfl⟩ := Option.map_eq_some_iff.mp hj
  exact Nat.succ_le_succ (h.fields hfields)

theorem value_succ (h : Bounded fuel) {j : Json}
    (hj : value? (fuel + 1) depth s = some (j, rest)) : j.depth ≤ depth := by
  rw [value?] at hj
  split at hj
  · -- null
    cases hj
    exact Nat.zero_le _
  · -- true
    cases hj
    exact Nat.zero_le _
  · -- false
    cases hj
    exact Nat.zero_le _
  · -- a string
    simp only [Option.bind_eq_bind, Option.bind_eq_some_iff] at hj
    obtain ⟨⟨text, rest⟩, -, hj⟩ := hj
    cases hj
    cases text <;> exact Nat.zero_le _
  · -- an array
    split at hj
    · cases hj
      refine depth_collected fun j hj => ?_
      cases hj
      exact Nat.succ_le_succ (Nat.zero_le _)
    · simp only [Option.bind_eq_bind, Option.bind_eq_some_iff] at hj
      obtain ⟨⟨xs, rest⟩, hxs, hj⟩ := hj
      cases hj
      exact h.depth_array hxs
  · -- an object
    split at hj
    · cases hj
      refine depth_collected fun j hj => ?_
      cases hj
      exact Nat.succ_le_succ (Nat.zero_le _)
    · simp only [Option.bind_eq_bind, Option.bind_eq_some_iff] at hj
      obtain ⟨⟨fields, rest⟩, hfields, hj⟩ := hj
      cases hj
      exact h.depth_object hfields
  · -- a number
    rw [depth_of_number? hj]
    exact Nat.zero_le _

theorem elements_succ (h : Bounded fuel) {xs : List Json}
    (hxs : elements? (fuel + 1) depth s = some (xs, rest)) : depthOfElements xs ≤ depth := by
  simp only [elements?, Option.bind_eq_bind, Option.bind_eq_some_iff] at hxs
  obtain ⟨⟨x, after⟩, hx, hxs⟩ := hxs
  have hfirst := h.value hx
  split at hxs
  · cases hxs
    exact Nat.max_le.mpr ⟨hfirst, Nat.zero_le _⟩
  · simp only [Option.bind_eq_some_iff] at hxs
    obtain ⟨⟨more, after⟩, hmore, hxs⟩ := hxs
    cases hxs
    exact Nat.max_le.mpr ⟨hfirst, h.elements hmore⟩
  · cases hxs

theorem fields_succ (h : Bounded fuel) {fields : List (Text × Json)}
    (hfields : fields? (fuel + 1) depth s = some (some fields, rest)) :
    depthOfFields fields ≤ depth := by
  rw [fields?] at hfields
  split at hfields
  · simp only [Option.bind_eq_bind, Option.bind_eq_some_iff] at hfields
    obtain ⟨⟨key, after⟩, -, hfields⟩ := hfields
    split at hfields
    · simp only [Option.bind_eq_some_iff] at hfields
      obtain ⟨⟨x, after⟩, hx, hfields⟩ := hfields
      have hfirst := h.value hx
      split at hfields
      · obtain ⟨hkey, -⟩ := Prod.mk.inj (Option.some.inj hfields)
        obtain ⟨k, -, rfl⟩ := Option.map_eq_some_iff.mp hkey
        exact Nat.max_le.mpr ⟨hfirst, Nat.zero_le _⟩
      · simp only [Option.bind_eq_some_iff] at hfields
        obtain ⟨⟨more, after⟩, hmore, hfields⟩ := hfields
        obtain ⟨hkey, -⟩ := Prod.mk.inj (Option.some.inj hfields)
        obtain ⟨k, -, hkey⟩ := Option.bind_eq_some_iff.mp hkey
        obtain ⟨fs, rfl, rfl⟩ := Option.map_eq_some_iff.mp hkey
        exact Nat.max_le.mpr ⟨hfirst, h.fields hmore⟩
      · cases hfields
    · cases hfields
  · cases hfields

end Bounded

theorem bounded (fuel : Nat) : Bounded fuel := by
  induction fuel with
  | zero => exact ⟨by simp [value?], by simp [elements?], by simp [fields?]⟩
  | succ fuel ih => exact ⟨ih.value_succ, ih.elements_succ, ih.fields_succ⟩

end Reader

/-- What is read from text does not nest deeper than the reader is told. -/
theorem depth_of_read? {depth : Nat} {s : Text} {j : Json} (h : read? depth s = some j) :
    j.depth ≤ depth := by
  simp only [read?, Option.bind_eq_bind, Option.bind_eq_some_iff] at h
  obtain ⟨⟨value, rest⟩, hvalue, h⟩ := h
  split at h
  · cases h
    exact (Reader.bounded _).value hvalue
  · cases h

/-! ## Records -/

/-- The values that a record is written with. -/
def Shape.values {β : Type} : Shape β → List β
  | named fields => fields.map (·.2)
  | positional elements => elements

theorem Record.mem_values {β : Type} {names : List Text} {s : Shape β} {r : Record β}
    (h : Record.ofShape? names s = some r) {name : Text} {b : β} (hb : r.get? name = some b) :
    b ∈ s.values := by
  obtain ⟨f, hf, rfl⟩ := Option.map_eq_some_iff.mp hb
  have hmem := List.mem_of_find?_eq_some hf
  cases s with
  | named fields =>
    simp only [Record.ofShape?, Option.ite_none_right_eq_some, Option.some.injEq] at h
    obtain ⟨-, rfl⟩ := h
    exact List.mem_map_of_mem hmem
  | positional elements =>
    simp only [Record.ofShape?, Option.ite_none_right_eq_some, Option.some.injEq] at h
    obtain ⟨-, rfl⟩ := h
    exact (List.of_mem_zip hmem).2

/-- A field that may be left out has its default value, or that of one of the record's values. -/
theorem Record.exists_of_defaulted? {α β : Type} {names : List Text} {s : Shape β} {r : Record β}
    (h : Record.ofShape? names s = some r) {name : Text} {default a : α} {read? : β → Option α}
    (ha : r.defaulted? name default read? = some a) :
    a = default ∨ ∃ b ∈ s.values, read? b = some a := by
  unfold Record.defaulted? at ha
  split at ha
  · rename_i b hb
    exact .inr ⟨b, Record.mem_values h hb, ha⟩
  · cases ha
    exact .inl rfl

theorem depth_lt_of_mem_values {j : Json} {s : Shape Json} (hs : j.shape? = some s) {b : Json}
    (hb : b ∈ s.values) : b.depth < j.depth := by
  unfold shape? at hs
  split at hs
  · cases hs
    obtain ⟨f, hf, rfl⟩ := List.mem_map.mp hb
    exact Nat.lt_succ_of_le (depth_le_depthOfFields hf)
  · cases hs
    exact Nat.lt_succ_of_le (depth_le_depthOfElements hb)
  · cases hs

end Json

open Json

/-! ## Members -/

namespace Member

mutual

/-- How many levels of members there are below a member. -/
def height : Member → Nat
  | ⟨_, _, _, _, _, _, _, members⟩ => heightOfAll members

/-- How many levels of members there are, these included. -/
def heightOfAll : List Member → Nat
  | [] => 0
  | m :: rest => max (height m + 1) (heightOfAll rest)

end

theorem height_eq (m : Member) : m.height = heightOfAll m.members := by
  cases m
  rw [height]

theorem heightOfAll_le {n : Nat} {ms : List Member} (h : ∀ m ∈ ms, m.height + 1 ≤ n) :
    heightOfAll ms ≤ n := by
  induction ms with
  | nil => exact Nat.zero_le n
  | cons m ms ih =>
    obtain ⟨hm, hrest⟩ := List.forall_mem_cons.mp h
    exact Nat.max_le.mpr ⟨hm, ih hrest⟩

theorem height_lt_heightOfAll {ms : List Member} {m : Member} (h : m ∈ ms) :
    m.height < heightOfAll ms := by
  induction ms with
  | nil => simp at h
  | cons n ms ih =>
    rw [heightOfAll]
    rcases List.mem_cons.mp h with rfl | h
    · exact Nat.le_max_left _ _
    · exact Nat.lt_of_lt_of_le (ih h) (Nat.le_max_right _ _)

theorem parts_eq_map (xs : List Json) : parts xs = xs.map fun j => (j, membersOfJson? j) := by
  induction xs with
  | nil => rw [parts, List.map_nil]
  | cons x xs ih => rw [parts, ih, List.map_cons]

theorem exists_of_mem_listOfJson? {xs : List Json} {ms : List Member}
    (h : listOfJson? xs = some ms) : ∀ m ∈ ms, ∃ j ∈ xs, ofJson? j = some m := by
  induction xs generalizing ms with
  | nil =>
    rw [listOfJson?] at h
    cases h
    simp
  | cons x xs ih =>
    simp only [listOfJson?, Option.bind_eq_bind, Option.bind_eq_some_iff] at h
    obtain ⟨first, hfirst, more, hmore, hms⟩ := h
    cases hms
    refine List.forall_mem_cons.mpr ⟨⟨x, List.mem_cons_self, hfirst⟩, fun m hm => ?_⟩
    obtain ⟨j, hj, hread⟩ := ih hmore m hm
    exact ⟨j, List.mem_cons_of_mem _ hj, hread⟩

/-- A member has no members of its own, or one of the record's values stands for them. -/
theorem members_of_ofShape? {s : Shape Part} {m : Member} (h : ofShape? s = some m) :
    m.members = [] ∨ ∃ part ∈ s.values, part.2 = some m.members := by
  simp only [ofShape?, Option.bind_eq_bind, Option.bind_eq_some_iff] at h
  obtain ⟨r, hr, _, -, _, -, _, -, _, -, _, -, _, -, _, -, members, hmembers, hm⟩ := h
  cases hm
  exact Record.exists_of_defaulted? hr hmembers

theorem members_of_ofJson? {j : Json} {m : Member} (h : ofJson? j = some m) :
    0 < j.depth ∧
      (m.members = [] ∨ ∃ k, k.depth < j.depth ∧ membersOfJson? k = some m.members) := by
  cases j with
  | object fields =>
    refine ⟨Nat.succ_pos _, ?_⟩
    rw [ofJson?, fieldParts_eq_map] at h
    rcases members_of_ofShape? h with hnil | ⟨part, hpart, hmembers⟩
    · exact .inl hnil
    · simp only [Shape.values, List.map_map, List.mem_map, Function.comp_def] at hpart
      obtain ⟨f, hf, rfl⟩ := hpart
      exact .inr ⟨f.2, Nat.lt_succ_of_le (depth_le_depthOfFields hf), hmembers⟩
  | array xs =>
    refine ⟨Nat.succ_pos _, ?_⟩
    rw [ofJson?, parts_eq_map] at h
    rcases members_of_ofShape? h with hnil | ⟨part, hpart, hmembers⟩
    · exact .inl hnil
    · simp only [Shape.values, List.mem_map] at hpart
      obtain ⟨x, hx, rfl⟩ := hpart
      exact .inr ⟨x, Nat.lt_succ_of_le (depth_le_depthOfElements hx), hmembers⟩
  | null | bool | integer | numeral | string | unreadable => simp [ofJson?] at h

/-- Each level of members takes two levels of collections. -/
theorem heightOfAll_of_membersOfJson? {n : Nat}
    (ih : ∀ {j m}, j.depth < n → ofJson? j = some m → 2 * m.height + 1 ≤ j.depth) {k : Json}
    (hk : k.depth ≤ n) {ms : List Member} (h : membersOfJson? k = some ms) :
    2 * heightOfAll ms ≤ k.depth := by
  cases k with
  | array xs =>
    rw [membersOfJson?] at h
    have hall : heightOfAll ms ≤ (array xs).depth / 2 := by
      refine heightOfAll_le fun m hm => ?_
      obtain ⟨j, hj, hread⟩ := exists_of_mem_listOfJson? h m hm
      have hlt : j.depth < (array xs).depth := Nat.lt_succ_of_le (depth_le_depthOfElements hj)
      have := ih (Nat.lt_of_lt_of_le hlt hk) hread
      omega
    omega
  | null | bool | integer | numeral | string | object | unreadable => simp [membersOfJson?] at h

theorem height_of_ofJson? {j : Json} {m : Member} (h : ofJson? j = some m) :
    2 * m.height + 1 ≤ j.depth := by
  induction hn : j.depth using Nat.strongRecOn generalizing j m with
  | ind n ih =>
    obtain ⟨hpos, hmembers⟩ := members_of_ofJson? h
    rw [height_eq]
    rcases hmembers with hnil | ⟨k, hk, hread⟩
    · rw [hnil, heightOfAll]
      omega
    · have hlower : ∀ {j m}, j.depth < n → ofJson? j = some m → 2 * m.height + 1 ≤ j.depth :=
        fun hlt hread => ih _ hlt hread rfl
      have := heightOfAll_of_membersOfJson? hlower (by omega) hread
      omega

end Member

/-! ## Manifests -/

/-- The members of a manifest: the container and its list of members take two levels. -/
theorem Container.height_of_read? {manifest : Text} {c : Container} (h : read? manifest = some c) :
    ∀ m ∈ c.members, m.height ≤ 62 := by
  obtain ⟨j, hj, hc⟩ := Option.bind_eq_some_iff.mp h
  have hdepth : j.depth ≤ 127 := depth_of_read? hj
  simp only [ofJson?, Record.ofJson?, Option.bind_eq_bind, Option.bind_eq_some_iff] at hc
  obtain ⟨r, ⟨s, hs, hr⟩, _, -, _, -, _, -, members, hmembers, _, -, hc⟩ := hc
  cases hc
  intro m hm
  rcases Record.exists_of_defaulted? hr hmembers with rfl | ⟨k, hk, hread⟩
  · simp at hm
  · have hlt := depth_lt_of_mem_values hs hk
    have hall := Member.heightOfAll_of_membersOfJson? (n := k.depth)
      (fun _ hread => Member.height_of_ofJson? hread) (Nat.le_refl _) hread
    have hheight : m.height < Member.heightOfAll members := Member.height_lt_heightOfAll hm
    omega

end ApiDocs
