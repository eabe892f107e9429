import Mathlib.Data.List.Basic
import Mathlib.Data.List.TakeWhile
import ApiDocs.Output.Sink

/-!
# What deliveries do to a file system

As there are no links, where a path leads does not depend on the files that there are: a path either
leads to its place or nowhere. Making directories leaves all files alone and only opens further ways, and writing a file
sets the content of one place. So after deliveries that could all be made, a path leads to what was
written last to its place.

* `Place.ofPath`: the place of a path.
* `FileSystem.Grows`: the same files, and at least the same directories.
* `FileSystem.makeDirectories_eq`: making directories.
* `FileSystem.write?_eq_some`: writing a file.
* `FileSystem.read?_performAll`: what is found after deliveries.
-/

namespace ApiDocs

/-! ## Places -/

/-- The place of a path, if it leads anywhere. -/
def Place.ofPath (path : Text) : Place := (Path.segments path).foldl Place.step (.start path)

namespace FileSystem

theorem eq_foldl_of_follow {fs : FileSystem} {p q : Place} {ss : List Text}
    (h : fs.follow p ss = .place q) : q = ss.foldl Place.step p := by
  induction ss generalizing p with
  | nil =>
    cases h
    rfl
  | cons s ss ih =>
    rw [follow] at h
    split at h
    · split at h
      · cases h
      · exact ih h
    · split at h <;> cases h

/-- Further segments are followed from where the first ones lead. -/
theorem follow_append {fs : FileSystem} {p q : Place} {ss : List Text}
    (h : fs.follow p ss = .place q) (more : List Text) :
    fs.follow p (ss ++ more) = fs.follow q more := by
  induction ss generalizing p with
  | nil =>
    cases h
    rfl
  | cons s ss ih =>
    rw [follow] at h
    rw [List.cons_append, follow]
    split at h
    · rename_i hdir
      split at h
      · cases h
      · rename_i hlong
        rw [if_pos hdir, if_neg hlong]
        exact ih h
    · split at h <;> cases h

/-! ## Growing -/

/-- One file system has the files of the other, and its directories at least. -/
structure Grows (fs fs' : FileSystem) : Prop where
  files : fs'.files = fs.files
  directories : fs.directories ⊆ fs'.directories

theorem Grows.file? {fs fs' : FileSystem} (h : Grows fs fs') (p : Place) :
    fs'.file? p = fs.file? p := by
  rw [FileSystem.file?, FileSystem.file?, h.files]

section Ways

variable {fs fs' : FileSystem} (h : fs.directories ⊆ fs'.directories)

include h

theorem isDirectory_mono {p : Place} (hp : fs.isDirectory p = true) : fs'.isDirectory p = true := by
  simp only [isDirectory, Bool.or_eq_true, List.contains_iff_mem] at hp ⊢
  exact hp.imp_right fun hmem => h hmem

theorem follow_mono {p q : Place} {ss : List Text} (hp : fs.follow p ss = .place q) :
    fs'.follow p ss = .place q := by
  induction ss generalizing p with
  | nil => exact hp
  | cons s ss ih =>
    rw [follow] at hp ⊢
    split at hp
    · rename_i hdir
      rw [if_pos (isDirectory_mono h hdir)]
      split at hp
      · cases hp
      · rename_i hlong
        rw [if_neg hlong]
        exact ih hp
    · split at hp <;> cases hp

theorem locate_mono {path : Text} {q : Place} (hp : fs.locate path = .place q) :
    fs'.locate path = .place q := by
  unfold locate at hp ⊢
  split at hp
  · cases hp
  · split at hp
    · cases hp
    · rename_i hne hhope
      rw [if_neg hne, if_neg hhope]
      exact follow_mono h hp

end Ways

/-! ## Making directories -/

variable {fs fs' : FileSystem}

theorem foldl_step_of_idle {ss : List Text} (h : ∀ s ∈ ss, Path.isIdle s = true) (p : Place) :
    ss.foldl Place.step p = p := by
  induction ss with
  | nil => rfl
  | cons s ss ih =>
    obtain ⟨hs, hrest⟩ := List.forall_mem_cons.mp h
    rw [List.foldl_cons, Place.step, if_pos hs, ih hrest]

/-- Empty segments at the end of a path do not count. -/
theorem ofPath_eq_foldl (path : Text) :
    Place.ofPath path =
      ((Path.segments path).reverse.dropWhile List.isEmpty).reverse.foldl Place.step
        (.start path) := by
  have hsplit : Path.segments path =
      ((Path.segments path).reverse.dropWhile List.isEmpty).reverse ++
        ((Path.segments path).reverse.takeWhile List.isEmpty).reverse := by
    rw [← List.reverse_append, List.takeWhile_append_dropWhile, List.reverse_reverse]
  have hidle : ∀ s ∈ ((Path.segments path).reverse.takeWhile List.isEmpty).reverse,
      Path.isIdle s = true := by
    intro s hs
    have hempty := List.mem_takeWhile_imp (List.mem_reverse.mp hs)
    simp [Path.isIdle, hempty]
  rw [Place.ofPath]
  conv_lhs => rw [hsplit]
  rw [List.foldl_append, foldl_step_of_idle hidle]

theorem makeDirectory_eq_made {path : Text} (h : fs.makeDirectory path = .made fs') :
    fs' = { fs with directories := fs.directories ++ [.ofPath path] } := by
  unfold makeDirectory at h
  split at h
  · cases h
  · dsimp only at h
    split at h
    · cases h
    · rename_i name hname
      split at h
      · cases h
      · cases h
      · rename_i p hp
        split at h
        · split at h
          · cases h
          · cases h
            have hlast := List.dropLast_append_getLast? name hname
            rw [ofPath_eq_foldl, ← hlast, List.foldl_append, ← eq_foldl_of_follow hp]
            rfl
        · split at h <;> cases h

/-- Some of the directories are made, each in its place. What has been made on the way remains, also
after a failure. -/
theorem makeFirst_eq (fs : FileSystem) (paths : List Text) :
    ∃ made : List Text, made ⊆ paths ∧
      (fs.makeFirst paths).1 =
        { fs with directories := fs.directories ++ made.map .ofPath } := by
  have hidle : ∀ (fs : FileSystem) (paths : List Text), ∃ made : List Text, made ⊆ paths ∧
      fs = { fs with directories := fs.directories ++ made.map .ofPath } :=
    fun fs paths => ⟨[], List.nil_subset paths, by simp⟩
  induction paths generalizing fs with
  | nil => exact hidle fs []
  | cons path outer ih =>
    rw [makeFirst]
    split
    · exact hidle fs _
    · split
      · rename_i hmade
        exact ⟨[path], by simp, makeDirectory_eq_made hmade⟩
      · exact hidle fs _
      · -- The directory above is missing: it is made first, and then the directory itself.
        obtain ⟨made, hmade, houter⟩ := ih fs
        have hmade : made ⊆ path :: outer := List.subset_cons_of_subset path hmade
        split
        · rename_i mid hmid
          rw [hmid] at houter
          exact ⟨made, hmade, houter⟩
        · rename_i mid hmid
          rw [hmid] at houter
          obtain rfl : mid = _ := houter
          split
          · rename_i hlast
            refine ⟨made ++ [path], by simp [hmade], ?_⟩
            rw [makeDirectory_eq_made hlast]
            simp
          · exact ⟨made, hmade, rfl⟩

theorem makeDirectories_eq (fs : FileSystem) (path : Text) :
    ∃ made : List Text, made ⊆ Path.ancestors path ∧
      (fs.makeDirectories path).1 =
        { fs with directories := fs.directories ++ made.map .ofPath } := fs.makeFirst_eq _

theorem makeDirectories_grows (fs : FileSystem) (path : Text) :
    Grows fs (fs.makeDirectories path).1 := by
  obtain ⟨made, -, heq⟩ := fs.makeDirectories_eq path
  rw [heq]
  exact ⟨rfl, List.subset_append_left _ _⟩

/-! ## Writing files -/

theorem file?_setFile (fs : FileSystem) (p q : Place) (content : Text) :
    { fs with files := setFile p content fs.files }.file? q =
      if q = p then some content else fs.file? q := by
  obtain ⟨files, directories⟩ := fs
  simp only [file?]
  induction files with
  | nil =>
    by_cases hq : q = p
    · simp [setFile, hq]
    · have hne : p ≠ q := fun heq => hq heq.symm
      simp [setFile, hq, hne]
  | cons f rest ih =>
    obtain ⟨r, old⟩ := f
    rw [setFile]
    split
    · rename_i hr
      by_cases hq : q = p
      · simp [hq]
      · have hne : p ≠ q := fun heq => hq heq.symm
        simp [hq, hr, hne]
    · rename_i hr
      by_cases hrq : r = q
      · subst hrq
        simp [hr]
      · simpa [hrq] using ih

theorem follow_child {p q : Place} {ss : List Text} {name : Text} (h : fs.follow p ss = .place q)
    (hdir : fs.isDirectory q = true) (hidle : Path.isIdle name = false)
    (hup : Path.isUp name = false) (hlong : isTooLong name = false) :
    fs.follow p (ss ++ [name]) = .place (q.child name) := by
  have hstep : q.step name = q.child name := by simp [Place.step, hidle, hup]
  rw [follow_append h, follow, if_pos hdir, hlong, if_neg (by simp), hstep]
  rfl

-- All that is checked before a file is written.
theorem write?_cases {path content : Text} (h : fs.write? path content = some fs') :
    ∃ (p : Place) (outer : List Text) (name : Text),
      Path.segments path = outer ++ [name] ∧ isHopeless path = false ∧
        Path.isIdle name = false ∧ Path.isUp name = false ∧ isTooLong name = false ∧
        fs.follow (.start path) outer = .place p ∧ fs.isDirectory p = true ∧
        fs.isDirectory (p.child name) = false ∧
        fs' = { fs with files := setFile (p.child name) content fs.files } := by
  unfold write? at h
  dsimp only at h
  split at h
  · cases h
  · rename_i name hname
    split at h
    · cases h
    · rename_i hgood
      split at h
      · rename_i p hp
        split at h
        · rename_i hdir
          cases h
          simp only [Bool.or_eq_true, not_or, Bool.not_eq_true] at hgood
          obtain ⟨⟨⟨hhope, hidle⟩, hup⟩, hlong⟩ := hgood
          have hsegments : Path.segments path = (Path.segments path).dropLast ++ [name] :=
            (List.dropLast_append_getLast? name hname).symm
          rw [Bool.and_eq_true_iff, Bool.not_eq_true'] at hdir
          exact ⟨p, _, name, hsegments, hhope, hidle, hup, hlong, hp, hdir.1, hdir.2, rfl⟩
        · cases h
      · cases h

/-- A file is written to the place of its path, if the path leads there. -/
theorem write?_eq_some {path content : Text} (h : fs.write? path content = some fs') :
    fs.locate path = .place (.ofPath path) ∧
      fs' = { fs with files := setFile (.ofPath path) content fs.files } := by
  obtain ⟨p, outer, name, hsegments, hhope, hidle, hup, hlong, hp, hdir, -, rfl⟩ := write?_cases h
  have hlocate : fs.follow (.start path) (Path.segments path) = .place (p.child name) := by
    rw [hsegments]
    exact follow_child hp hdir hidle hup hlong
  have hplace : p.child name = .ofPath path := eq_foldl_of_follow hlocate
  have hne : path.isEmpty = false := by
    cases path with
    | nil =>
      -- The one segment of the empty path is empty.
      have hname : name = [] := by
        have hlast := congrArg List.getLast? hsegments
        rw [List.getLast?_concat] at hlast
        exact (Option.some.inj hlast).symm
      rw [hname] at hidle
      cases hidle
    | cons c rest => rfl
  refine ⟨?_, by rw [hplace]⟩
  rw [locate, hne, hhope, if_neg (by simp), if_neg (by simp), hlocate, hplace]

/-! ## Deliveries -/

/-- A path leads to what is in its place. -/
theorem read?_of_locate {path : Text} {p : Place} (h : fs.locate path = .place p) :
    fs.read? path = fs.file? p := by
  rw [read?, h]

/-- A block that is delivered to a file is in the place of the file, and nothing else has changed
in any place. -/
theorem perform_write {folder path content : Text}
    (h : fs.perform (.write folder path content) = (fs', true)) :
    fs.directories ⊆ fs'.directories ∧ fs'.locate path = .place (.ofPath path) ∧
      ∀ q, fs'.file? q = if q = .ofPath path then some content else fs.file? q := by
  have hgrows := fs.makeDirectories_grows folder
  rw [perform] at h
  split at h
  · cases h
  · rename_i mid hmid
    rw [hmid] at hgrows
    split at h
    · rename_i done hwrite
      obtain ⟨hlocate, rfl⟩ := write?_eq_some hwrite
      cases h
      refine ⟨hgrows.directories, ?_, fun q => ?_⟩
      · refine locate_mono ?_ hlocate
        exact List.Subset.refl mid.directories
      · rw [file?_setFile, hgrows.file?]
    · cases h

/-- The content that the last of some writings gives to a place. -/
def lastContent? (p : Place) : List (Text × Text) → Option Text
  | [] => none
  | (path, content) :: rest =>
    (lastContent? p rest).or (if .ofPath path = p then some content else none)

/-- **What is found after deliveries.** After blocks have been delivered to files, all files that
were found are found still, and each place has the content that was last written to it, or that
it had before. -/
theorem read?_performAll {folder : Text} {writings : List (Text × Text)}
    (h : fs.performAll (writings.map fun w => .write folder w.1 w.2) = (fs', true)) :
    fs.directories ⊆ fs'.directories ∧
      (∀ w ∈ writings, fs'.locate w.1 = .place (.ofPath w.1)) ∧
        ∀ q, fs'.file? q = (lastContent? q writings).or (fs.file? q) := by
  -- By induction on the deliveries: a way that the first of them has opened stays open.
  induction writings generalizing fs with
  | nil =>
    cases h
    exact ⟨List.Subset.refl _, by simp, fun q => rfl⟩
  | cons w rest ih =>
    rw [List.map_cons, performAll] at h
    split at h
    · cases h
    · rename_i mid hmid
      obtain ⟨hdirs, hlocate, hfile⟩ := perform_write hmid
      obtain ⟨hdirs', hlocate', hfile'⟩ := ih h
      refine ⟨List.Subset.trans hdirs hdirs', ?_, fun q => ?_⟩
      · intro x hx
        rcases List.mem_cons.mp hx with rfl | hx
        · exact locate_mono hdirs' hlocate
        · exact hlocate' x hx
      · rw [hfile', hfile, lastContent?, Option.or_assoc]
        congr 1
        by_cases hq : q = .ofPath w.1
        · simp [hq]
        · simp [hq, eq_comm]

end FileSystem

end ApiDocs
