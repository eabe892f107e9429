import ApiDocs.Proofs.Output.FileSystem
import ApiDocs.Proofs.Text.Cut

/-!
# The files of named blocks

A plain name stands for one file inside any folder: the path of the file is the path of the folder
with the name as its last segment. The extension of output files is added to a name that has none,
so that two names may stand for the same file. This is so exactly if one of them is the other one
with the extension.

* `Path.segments_join`, `Place.ofPath_join`: plain names inside a folder.
* `Output.fileName`: the name of the file of a block.
* `Output.accepts`: the names that a block may have.
* `Sink.deliver_directory`: where a folder puts a block.
* `Output.SharesFile`, `Output.fileName_eq_iff`: names that stand for the same file.
-/

namespace ApiDocs

/-! ## Plain names inside a folder -/

namespace Path

theorem isAbsolute_eq_false {name : Text} (hname : '/' ∉ name) : isAbsolute name = false := by
  cases name with
  | nil => rfl
  | cons c rest =>
    have hc : c ≠ '/' := fun hc => hname (hc ▸ List.mem_cons_self)
    simpa [isAbsolute] using hc

/-- What stands before a name inside a folder: nothing, or a path that ends in a slash. -/
theorem exists_join_eq (folder : Text) :
    ∃ before : Text, (before = [] ∨ ∃ path, before = path ++ ['/']) ∧
      ∀ name : Text, '/' ∉ name → join folder name = before ++ name := by
  by_cases hempty : folder.isEmpty = true
  · refine ⟨[], .inl rfl, fun name hname => ?_⟩
    simp [join, hempty]
  · by_cases hslash : folder.getLast? = some '/'
    · refine ⟨folder, .inr ⟨folder.dropLast, ?_⟩, fun name hname => ?_⟩
      · exact (List.dropLast_append_getLast? '/' hslash).symm
      · simp [join, isAbsolute_eq_false hname, hempty, hslash]
    · refine ⟨folder ++ ['/'], .inr ⟨folder, rfl⟩, fun name hname => ?_⟩
      simp [join, isAbsolute_eq_false hname, hempty, hslash]

/-- More text behind a name inside a folder is more text in the name. -/
theorem join_append (folder : Text) {name more : Text} (hname : '/' ∉ name) (hmore : '/' ∉ more) :
    join folder (name ++ more) = join folder name ++ more := by
  obtain ⟨before, -, hjoin⟩ := exists_join_eq folder
  rw [hjoin name hname, hjoin (name ++ more) (by simp [hname, hmore]), List.append_assoc]

/-- A plain name is the last segment of its path inside a folder; all else of the path is the same
for all names. -/
theorem segments_join (folder : Text) :
    ∃ outer : List Text, ∀ name : Text, '/' ∉ name →
      segments (join folder name) = outer ++ [name] := by
  obtain ⟨before, hbefore, hjoin⟩ := exists_join_eq folder
  rcases hbefore with rfl | ⟨path, rfl⟩
  · refine ⟨[], fun name hname => ?_⟩
    rw [hjoin name hname, List.nil_append]
    exact List.splitOn_eq_singleton hname
  · refine ⟨segments path, fun name hname => ?_⟩
    rw [hjoin name hname, segments, List.append_assoc, List.singleton_append,
      List.splitOn_append_cons_self, List.splitOn_eq_singleton hname]
    rfl

theorem fileName?_join (folder : Text) {name : Text} (hname : '/' ∉ name)
    (hidle : isIdle name = false) (hup : isUp name = false) :
    fileName? (join folder name) = some name := by
  obtain ⟨outer, hsegments⟩ := segments_join folder
  simp [fileName?, hsegments name hname, trimIdle, hidle, hup]

theorem withExtension_join (folder : Text) {name : Text} (hname : '/' ∉ name)
    (hidle : isIdle name = false) (hup : isUp name = false) (extension : Text) :
    withExtension (join folder name) extension =
      join folder name ++ (".".toList ++ extension) := by
  obtain ⟨outer, hsegments⟩ := segments_join folder
  have hkept : trimIdle (segments (join folder name)) = segments (join folder name) := by
    simp [hsegments name hname, trimIdle, hidle]
  have hpath : ofSegments (segments (join folder name)) = join folder name :=
    List.intercalate_splitOn '/'
  unfold withExtension
  simp only [fileName?_join folder hname hidle hup, hkept, hpath, List.append_assoc]

/-- A dot with something before it begins an extension, if it is the last one. -/
theorem cutExtension?_eq_some_iff {name stem extension : Text} :
    cutExtension? name = some (stem, extension) ↔
      stem ≠ [] ∧ name = stem ++ '.' :: extension ∧ '.' ∉ extension := by
  rw [cutExtension?, Option.filter_eq_some_iff]
  constructor
  · rintro ⟨hcut, hstem⟩
    obtain ⟨c, hname, hc, hextension⟩ := Text.cutAtLast?_eq_some hcut
    obtain rfl : c = '.' := by simpa using hc
    refine ⟨by simpa using hstem, hname, fun hdot => ?_⟩
    exact absurd (hextension '.' hdot) (by decide)
  · rintro ⟨hstem, rfl, hdot⟩
    have hextension : ∀ c ∈ extension, (c == '.') = false := by
      intro c hc
      have hne : c ≠ '.' := fun heq => hdot (heq ▸ hc)
      simpa using hne
    exact ⟨Text.cutAtLast?_append hextension (by decide) stem, by simpa using hstem⟩

end Path

namespace Place

theorem ofPath_append_slash (path : Text) {name : Text} (hname : '/' ∉ name) :
    ofPath (path ++ '/' :: name) =
      ((Path.segments path).foldl step (.start (path ++ ['/']))).step name := by
  have hstart : start (path ++ '/' :: name) = start (path ++ ['/']) := by
    cases path <;> rfl
  have hsegments : Path.segments (path ++ '/' :: name) = Path.segments path ++ [name] := by
    rw [Path.segments, List.splitOn_append_cons_self, List.splitOn_eq_singleton hname]
    rfl
  rw [ofPath, hstart, hsegments, List.foldl_append]
  rfl

/-- A plain name inside a folder lies in the place of the folder, under this name. -/
theorem ofPath_join (folder : Text) {name : Text} (hname : '/' ∉ name)
    (hidle : Path.isIdle name = false) (hup : Path.isUp name = false) :
    ofPath (Path.join folder name) = (ofPath folder).child name := by
  have hstep : ∀ p : Place, p.step name = p.child name := fun p => by simp [step, hidle, hup]
  have habsolute := Path.isAbsolute_eq_false hname
  by_cases hempty : folder = []
  · subst hempty
    have hsegments : Path.segments name = [name] := List.splitOn_eq_singleton hname
    simp only [Path.join, habsolute, List.isEmpty_nil, Bool.or_true, if_true, ofPath, hsegments,
      List.foldl_cons, List.foldl_nil, hstep, start]
    rfl
  · have hfolder : folder.isEmpty = false := by simpa using hempty
    by_cases hslash : folder.getLast? = some '/'
    · obtain ⟨path, rfl⟩ := List.getLast?_eq_some_iff.mp hslash
      have hjoin : Path.join (path ++ ['/']) name = path ++ '/' :: name := by
        simp [Path.join, habsolute]
      have hsame : ∀ p : Place, p.step [] = p := fun p => rfl
      rw [hjoin, ofPath_append_slash path hname, ofPath_append_slash path List.not_mem_nil, hstep,
        hsame]
    · have hjoin : Path.join folder name = folder ++ '/' :: name := by
        simp [Path.join, habsolute, hfolder, hslash]
      have hstart : start (folder ++ ['/']) = start folder := by
        cases folder with
        | nil => exact absurd rfl hempty
        | cons c rest => rfl
      rw [hjoin, ofPath_append_slash folder hname, hstart, hstep]
      rfl

end Place

namespace Output

/-! ## Names of files -/

/-- The name of the file of a block: its own name, with an extension if it has none. -/
def fileName (name : Text) : Text :=
  if (Path.cutExtension? name).isSome then name else name ++ ".md".toList

/-- Whether a block may have a name: a plain one, with the one extension that there is if with
any. -/
def accepts (name : Text) : Bool :=
  isPlainName name && (Path.cutExtension? name).all (·.2 == outputExtension)

theorem isPlainName_iff {name : Text} :
    isPlainName name = true ↔
      '/' ∉ name ∧ '\\' ∉ name ∧ Path.isIdle name = false ∧ Path.isUp name = false := by
  simp [isPlainName, and_assoc]

/-- A name with the extension is longer than the segments that do not count as names. -/
theorem leads_append_md (name : Text) :
    Path.isIdle (name ++ ".md".toList) = false ∧ Path.isUp (name ++ ".md".toList) = false := by
  have hlong : ∀ t : Text, t.length < 3 → name ++ ".md".toList ≠ t := by
    rintro t ht rfl
    rw [List.length_append] at ht
    exact absurd ht (Nat.not_lt.mpr (Nat.le_add_left 3 name.length))
  constructor
  · simpa [Path.isIdle] using hlong ".".toList (by decide)
  · simpa [Path.isUp] using hlong "..".toList (by decide)

theorem isPlainName_fileName {name : Text} (h : isPlainName name = true) :
    isPlainName (fileName name) = true := by
  unfold fileName
  split
  · exact h
  · rw [isPlainName_iff] at h ⊢
    obtain ⟨hslash, hback, -, -⟩ := h
    exact ⟨by simp [hslash], by simp [hback], leads_append_md name⟩

theorem finalizePath_join (root : Text) {name : Text} (h : accepts name = true) :
    finalizePath (Path.join root name) = .ok (Path.join root (fileName name)) := by
  obtain ⟨hplain, hextension⟩ := Bool.and_eq_true_iff.mp h
  obtain ⟨hslash, -, hidle, hup⟩ := isPlainName_iff.mp hplain
  unfold finalizePath fileName
  rw [Path.extension?, Path.fileName?_join root hslash hidle hup]
  cases hcut : Path.cutExtension? name with
  | none =>
    have hadded := Path.withExtension_join root hslash hidle hup outputExtension
    have hsame : Path.join root (name ++ ".md".toList) = Path.join root name ++ ".md".toList :=
      Path.join_append root hslash (by decide)
    simp only [Option.bind_eq_bind, Option.bind_some, Option.bind_none, hcut, hadded]
    rw [Option.isSome_none, if_neg (by simp), hsame]
    rfl
  | some parts =>
    rw [hcut, Option.all_some] at hextension
    simp [hcut, hextension]

end Output

/-! ## Where a folder puts a block -/

namespace Sink

open Output

theorem deliver_directory_of_isPlainName (root content : Text) {name : Text}
    (h : isPlainName name = true) :
    (directory root).deliver name content =
      (finalizePath (Path.join root name)).map fun path => .write root path content := by
  have hname : checkName name = .ok name := if_pos h
  rw [deliver, hname]
  cases hpath : finalizePath (Path.join root name) with
  | ok path => simp [bind, Except.bind, hpath, Except.map, pure, Except.pure]
  | error e => simp [bind, Except.bind, hpath, Except.map]

theorem deliver_directory (root content : Text) {name : Text} (h : accepts name = true) :
    (directory root).deliver name content =
      .ok (.write root (Path.join root (fileName name)) content) := by
  have hplain : isPlainName name = true := (Bool.and_eq_true_iff.mp h).1
  rw [deliver_directory_of_isPlainName root content hplain, finalizePath_join root h]
  rfl

theorem deliver_directory_of_not_accepts (root content : Text) {name : Text}
    (h : accepts name = false) : ∃ e, (directory root).deliver name content = .error e := by
  by_cases hplain : isPlainName name = true
  · obtain ⟨hslash, -, hidle, hup⟩ := isPlainName_iff.mp hplain
    rw [accepts, hplain, Bool.true_and] at h
    rw [deliver_directory_of_isPlainName root content hplain, finalizePath, Path.extension?,
      Path.fileName?_join root hslash hidle hup]
    cases hcut : Path.cutExtension? name with
    | none => simp [hcut] at h
    | some parts =>
      have hbad : (parts.2 == outputExtension) = false := by simpa [hcut] using h
      refine ⟨.invalidExtension (Path.join root name) parts.2, ?_⟩
      simp [hcut, hbad, Except.map]
  · refine ⟨.invalidName name, ?_⟩
    have hname : checkName name = .error (.invalidName name) := if_neg hplain
    rw [deliver, hname]
    rfl

end Sink

/-! ## Names that stand for the same file -/

namespace Output

/-- One of two names is the other one with the extension of output files, which that one lacks. -/
def SharesFile (n m : Text) : Prop :=
  (Path.cutExtension? n = none ∧ m = n ++ ".md".toList) ∨
    (Path.cutExtension? m = none ∧ n = m ++ ".md".toList)

instance (n m : Text) : Decidable (SharesFile n m) := inferInstanceAs (Decidable (_ ∨ _))

theorem cutExtension?_append_md {n : Text} (hne : n ≠ []) :
    Path.cutExtension? (n ++ ".md".toList) = some (n, "md".toList) :=
  Path.cutExtension?_eq_some_iff.mpr ⟨hne, rfl, by decide⟩

theorem fileName_eq_of_none {n : Text} (h : Path.cutExtension? n = none) :
    fileName n = n ++ ".md".toList := by
  simp [fileName, h]

theorem fileName_append_md {n : Text} (hne : n ≠ []) :
    fileName (n ++ ".md".toList) = n ++ ".md".toList := by
  rw [fileName, cutExtension?_append_md hne]
  rfl

theorem eq_of_fileName_eq {n m : Text} (h : fileName n = fileName m)
    (hcut : (Path.cutExtension? n).isSome = (Path.cutExtension? m).isSome) : n = m := by
  rw [fileName, fileName, hcut] at h
  split at h
  · exact h
  · exact List.append_cancel_right h

/-- **Two names stand for the same file** exactly if they are equal, or one is the other one with
the extension. -/
theorem fileName_eq_iff {n m : Text} (hn : n ≠ []) (hm : m ≠ []) :
    fileName n = fileName m ↔ n = m ∨ SharesFile n m := by
  constructor
  · intro heq
    by_cases hcut : (Path.cutExtension? n).isSome = (Path.cutExtension? m).isSome
    · exact .inl (eq_of_fileName_eq heq hcut)
    · -- One of the two has an extension, which makes its file name of it as it is.
      cases hcutn : Path.cutExtension? n with
      | none =>
        have hsome : (Path.cutExtension? m).isSome = true := by
          simpa [hcutn, Option.isSome_iff_ne_none] using hcut
        rw [fileName_eq_of_none hcutn, fileName, if_pos hsome] at heq
        exact .inr (.inl ⟨hcutn, heq.symm⟩)
      | some parts =>
        have hnone : Path.cutExtension? m = none := by simpa [hcutn] using hcut
        rw [fileName_eq_of_none hnone, fileName, hcutn, Option.isSome_some, if_pos rfl] at heq
        exact .inr (.inr ⟨hnone, heq⟩)
  · rintro (rfl | ⟨hcut, rfl⟩ | ⟨hcut, rfl⟩)
    · rfl
    · rw [fileName_eq_of_none hcut, fileName_append_md hn]
    · rw [fileName_eq_of_none hcut, fileName_append_md hm]

/-- No three names stand for the same file: two of them would both have an extension, or both have
none. -/
theorem eq_or_eq_of_fileName_eq {n m k : Text} (hm : fileName n = fileName m)
    (hk : fileName n = fileName k) : n = m ∨ n = k ∨ m = k := by
  by_cases hnm : (Path.cutExtension? n).isSome = (Path.cutExtension? m).isSome
  · exact .inl (eq_of_fileName_eq hm hnm)
  · by_cases hnk : (Path.cutExtension? n).isSome = (Path.cutExtension? k).isSome
    · exact .inr (.inl (eq_of_fileName_eq hk hnk))
    · have hmk : (Path.cutExtension? m).isSome = (Path.cutExtension? k).isSome :=
        Bool.not_inj ((Bool.eq_not.mpr hnm).symm.trans (Bool.eq_not.mpr hnk))
      exact .inr (.inr (eq_of_fileName_eq (hm.symm.trans hk) hmk))

end Output

end ApiDocs
