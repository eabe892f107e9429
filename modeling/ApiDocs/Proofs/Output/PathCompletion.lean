import ApiDocs.Proofs.Output.Containment

/-!
# Paths of output files

The path of an output file gets the extension of output files if it has none. What the path says
about the folder stays as it is written: segments that lead nowhere are dropped behind the name of
the file only. So the new path lies in the same folder, and it has the extension, which is why
completing it again changes nothing.

* `Path.NamesFile`, `Path.fileName?_eq_some_iff`: paths that name a file, by their segments.
* `Path.extension?_eq_some_iff`: the extension of a path.
* `Path.NamesFile.parent?`: the folder depends on what stands before the name only.
* `Path.NamesFile.withExtension`: a path with an extension added to the name.
* `Output.finalizePath_eq_ok_iff`, `Output.finalizePath_again`, `Output.finalizePath_completes`:
  which paths are completed, and how, and that a completed one stays as it is.
-/

namespace ApiDocs

namespace Path

/-! ## Paths that name a file -/

/-- Behind the segments of the folder stands the name of a file, and behind it nothing that leads
anywhere. -/
structure NamesFile (path : Text) (outer : List Text) (name : Text) (idle : List Text) : Prop where
  segments_eq : segments path = outer ++ name :: idle
  idle : ∀ s ∈ idle, isIdle s = true
  name_not_idle : isIdle name = false
  name_not_up : isUp name = false

theorem trimIdle_append_idle {ss idle : List Text} (h : ∀ s ∈ idle, isIdle s = true) :
    trimIdle (ss ++ idle) = trimIdle ss := by
  rw [trimIdle, List.reverse_append, List.dropWhile_append_of_pos]
  · rfl
  · simpa using h

theorem trimIdle_concat {outer : List Text} {name : Text} (h : isIdle name = false) :
    trimIdle (outer ++ [name]) = outer ++ [name] :=
  List.rdropWhile_concat_neg isIdle outer name (by simp [h])

namespace NamesFile

variable {path name : Text} {outer idle : List Text}

theorem trimIdle_segments (h : NamesFile path outer name idle) :
    trimIdle (segments path) = outer ++ [name] := by
  rw [h.segments_eq, List.append_cons, trimIdle_append_idle h.idle, trimIdle_concat h.name_not_idle]

theorem fileName? (h : NamesFile path outer name idle) : fileName? path = some name := by
  simp [Path.fileName?, h.trimIdle_segments, h.name_not_up]

theorem slash_not_mem (h : NamesFile path outer name idle) :
    ∀ s ∈ outer ++ [name], '/' ∉ s := by
  intro s hs
  refine Text.not_mem_of_mem_splitOn (s := path) (?_ : s ∈ segments path)
  rw [h.segments_eq, List.append_cons]
  exact List.mem_append_left idle hs

end NamesFile

/-- A path names a file exactly if it has a file name, and then this one. -/
theorem fileName?_eq_some_iff {path name : Text} :
    fileName? path = some name ↔ ∃ outer idle, NamesFile path outer name idle := by
  constructor
  · intro h
    obtain ⟨hlast, hup⟩ := Option.filter_eq_some_iff.mp h
    obtain ⟨outer, houter⟩ := List.getLast?_eq_some_iff.mp hlast
    have hsplit : trimIdle (segments path) ++ (segments path).rtakeWhile isIdle = segments path :=
      List.rdropWhile_append_rtakeWhile
    refine ⟨outer, (segments path).rtakeWhile isIdle, ?_, ?_, ?_, by simpa using hup⟩
    · rw [houter, List.append_assoc] at hsplit
      exact hsplit.symm
    · exact fun s hs => List.mem_rtakeWhile_imp hs
    · exact isIdle_of_getLast?_trimIdle hlast
  · rintro ⟨outer, idle, h⟩
    exact h.fileName?

/-- The extension of a path is what stands behind the last dot of the file name, unless the name
begins with that dot. -/
theorem extension?_eq_some_iff {path extension : Text} :
    extension? path = some extension ↔
      ∃ outer stem idle, NamesFile path outer (stem ++ '.' :: extension) idle ∧ stem ≠ [] ∧
        '.' ∉ extension := by
  simp only [extension?, Option.bind_eq_bind, Option.bind_eq_some_iff, fileName?_eq_some_iff,
    Option.some.injEq]
  constructor
  · rintro ⟨name, ⟨outer, idle, hname⟩, ⟨stem, extension⟩, hcut, rfl⟩
    obtain ⟨hstem, rfl, hdot⟩ := cutExtension?_eq_some_iff.mp hcut
    exact ⟨outer, stem, idle, hname, hstem, hdot⟩
  · rintro ⟨outer, stem, idle, hname, hstem, hdot⟩
    exact ⟨_, ⟨outer, idle, hname⟩, (stem, extension),
      cutExtension?_eq_some_iff.mpr ⟨hstem, rfl, hdot⟩, rfl⟩

/-! ## The folder of a file -/

/-- The folder of a file with these segments before its name. -/
def folderOf (outer : List Text) : Text :=
  match trimIdle outer with
  | [] => if outer.head? == some [] then "/".toList else if outer.isEmpty then [] else ".".toList
  | ss => ofSegments ss

namespace NamesFile

variable {path name : Text} {outer idle : List Text}

/-- A path that names a file starts at the root exactly if its first segment is empty: the name is
not, so that this is a segment before the name. -/
theorem isAbsolute_eq (h : NamesFile path outer name idle) :
    isAbsolute path = (outer.head? == some []) := by
  rw [Bool.eq_iff_iff, isAbsolute_iff, h.segments_eq, beq_iff_eq]
  cases outer with
  | nil =>
    have hname : name ≠ [] := fun hnil => absurd h.name_not_idle (by simp [hnil, isIdle])
    simp [hname]
  | cons first outer =>
    obtain ⟨s, more, hrest⟩ := List.exists_cons_of_ne_nil
      (List.append_ne_nil_of_right_ne_nil outer (List.cons_ne_nil name idle))
    simp [hrest]

theorem parent? (h : NamesFile path outer name idle) : parent? path = some (folderOf outer) := by
  obtain ⟨s, more, hcore⟩ := List.exists_cons_of_ne_nil (List.concat_ne_nil name outer)
  have houter : (s :: more).dropLast = outer := by rw [← hcore, List.dropLast_concat]
  rw [Path.parent?, h.trimIdle_segments, hcore]
  simp only [houter, h.isAbsolute_eq, folderOf]
  cases trimIdle outer with
  | nil =>
    dsimp only
    split
    · rfl
    · split <;> rfl
  | cons first rest => rfl

end NamesFile

/-! ## More text behind a name -/

theorem withExtension_of_unnamed {path : Text} (h : fileName? path = none) (extension : Text) :
    withExtension path extension = path := by
  rw [withExtension, h]

theorem ofSegments_concat_append (outer : List Text) (name more : Text) :
    ofSegments (outer ++ [name]) ++ more = ofSegments (outer ++ [name ++ more]) := by
  cases outer with
  | nil => simp [ofSegments]
  | cons first outer =>
    simp [ofSegments, Text.intercalate_cons, List.flatMap_append, List.append_assoc]

namespace NamesFile

variable {path name : Text} {outer idle : List Text}

theorem withExtension (h : NamesFile path outer name idle) (extension : Text) :
    withExtension path extension = ofSegments (outer ++ [name ++ ('.' :: extension)]) := by
  rw [Path.withExtension, h.fileName?, h.trimIdle_segments]
  simp [← ofSegments_concat_append]

/-- Another file of the same folder. -/
theorem rename (h : NamesFile path outer name idle) {name' : Text} (hslash : '/' ∉ name')
    (hidle : isIdle name' = false) (hup : isUp name' = false) :
    NamesFile (ofSegments (outer ++ [name'])) outer name' [] := by
  refine ⟨segments_ofSegments (by simp) fun s hs => ?_, by simp, hidle, hup⟩
  rcases List.mem_append.mp hs with hs | hs
  · exact h.slash_not_mem s (List.mem_append_left [name] hs)
  · rw [List.mem_singleton.mp hs]
    exact hslash

end NamesFile

end Path

namespace Output

/-! ## Completed paths -/

theorem finalizePath_eq_ok_iff {path result : Text} :
    finalizePath path = .ok result ↔
      Path.extension? path = none ∧ result = Path.withExtension path outputExtension ∨
        Path.extension? path = some outputExtension ∧ result = path := by
  unfold finalizePath
  cases hextension : Path.extension? path with
  | none => simp [eq_comm]
  | some extension =>
    by_cases hmd : extension = outputExtension
    · simp [hmd, eq_comm]
    · simp [hmd]

/-- The path of a file without an extension is completed in its folder. -/
theorem namesFile_completed {path name : Text} {outer idle : List Text}
    (h : Path.NamesFile path outer name idle) :
    Path.NamesFile (Path.withExtension path outputExtension) outer (name ++ ".md".toList) [] := by
  obtain ⟨hidle, hup⟩ := leads_append_md name
  have hslash : '/' ∉ name ++ ".md".toList := by
    simpa using h.slash_not_mem name (by simp)
  have hsame : name ++ '.' :: outputExtension = name ++ ".md".toList := rfl
  rw [h.withExtension, hsame]
  exact h.rename hslash hidle hup

theorem extension?_completed {path name : Text} {outer idle : List Text}
    (h : Path.NamesFile path outer name idle) :
    Path.extension? (Path.withExtension path outputExtension) = some outputExtension := by
  refine Path.extension?_eq_some_iff.mpr ⟨outer, name, [], namesFile_completed h, ?_, by decide⟩
  rintro rfl
  exact absurd h.name_not_idle (by decide)

/-- A completed path has the extension of output files, or it names no file. -/
theorem finalizePath_again {path result : Text} (h : finalizePath path = .ok result) :
    finalizePath result = .ok result := by
  rcases finalizePath_eq_ok_iff.mp h with ⟨-, rfl⟩ | ⟨-, rfl⟩
  · cases hname : Path.fileName? path with
    | none =>
      rw [Path.withExtension_of_unnamed hname] at h ⊢
      exact h
    | some name =>
      obtain ⟨outer, idle, hfile⟩ := Path.fileName?_eq_some_iff.mp hname
      exact finalizePath_eq_ok_iff.mpr (.inr ⟨extension?_completed hfile, rfl⟩)
  · exact h

/-- **The path of an output file is completed exactly, and once.** A path is refused if and only if
it has an extension other than that of output files. A path that names a file leads to a file with
the extension, in the same folder: to the file that it names, or to the one whose name has the
extension in addition. All that stands before the name is then as it was written. A path that names
no file stays as it is, and so does a path that has been completed. -/
theorem finalizePath_completes (path : Text) :
    ((∃ result, finalizePath path = .ok result) ↔
        Path.extension? path = none ∨ Path.extension? path = some "md".toList) ∧
      ∀ result, finalizePath path = .ok result →
        (∀ name, Path.fileName? path = some name →
          Path.extension? result = some "md".toList ∧ Path.parent? result = Path.parent? path ∧
            (Path.fileName? result = some name ∧ result = path ∨
              Path.fileName? result = some (name ++ ".md".toList) ∧
                ∃ outer idle, Path.NamesFile path outer name idle ∧
                  result = Path.ofSegments (outer ++ [name ++ ".md".toList]))) ∧
        (Path.fileName? path = none → result = path) ∧ finalizePath result = .ok result := by
  constructor
  · simp only [finalizePath_eq_ok_iff, exists_or, exists_and_left, exists_eq, and_true]
    rfl
  · intro result hresult
    rcases finalizePath_eq_ok_iff.mp hresult with ⟨hnone, rfl⟩ | ⟨hmd, rfl⟩
    · refine ⟨fun name hname => ?_, fun hunnamed => ?_, ?_⟩
      · obtain ⟨outer, idle, h⟩ := Path.fileName?_eq_some_iff.mp hname
        have hcompleted := namesFile_completed h
        refine ⟨extension?_completed h, ?_, .inr ⟨hcompleted.fileName?, outer, idle, h, ?_⟩⟩
        · rw [hcompleted.parent?, h.parent?]
        · exact h.withExtension outputExtension
      · exact Path.withExtension_of_unnamed hunnamed outputExtension
      · exact finalizePath_again hresult
    · exact ⟨fun name hname => ⟨hmd, rfl, .inl ⟨hname, rfl⟩⟩, fun _ => rfl, hresult⟩

/-- A hidden file with slashes and dots around its name, which has no extension although it begins
with a dot, and a path that names no file. -/
theorem finalizePath_completes_hidden :
    let path := "docs//./.api/./".toList
    let result := "docs//./.api.md".toList
    let up := "docs/..".toList
    finalizePath path = .ok result ∧ Path.fileName? path = some ".api".toList ∧
      Path.extension? result = some "md".toList ∧ Path.parent? result = Path.parent? path ∧
      finalizePath result = .ok result ∧
      finalizePath up = .ok up ∧ Path.fileName? up = none ∧
      ∀ other, finalizePath up = .ok other → other = up := by
  intro path result up
  have hresult : finalizePath path = .ok result := by decide
  have hname : Path.fileName? path = some ".api".toList := by decide
  have hunnamed : Path.fileName? up = none := by decide
  obtain ⟨-, hcompletes⟩ := finalizePath_completes path
  obtain ⟨hfile, -, hagain⟩ := hcompletes result hresult
  obtain ⟨hextension, hparent, -⟩ := hfile _ hname
  refine ⟨hresult, hname, hextension, hparent, hagain, by decide, hunnamed, ?_⟩
  intro other hother
  obtain ⟨-, hsame, -⟩ := (finalizePath_completes up).2 other hother
  exact hsame hunnamed

end Output

end ApiDocs
