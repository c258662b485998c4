import HeaderReflect.Proofs.FileSystem.Content
import Mathlib.Data.List.DropRight

/-!
Directories that are made stay. Whatever else is made or written, a path that is a directory remains
one, so that making it once more changes nothing (`ensureDirectory_again`). Separators at the end of
a path make no difference to that (`locate_dropSeparators`).
-/

namespace HeaderReflect.FileSystem

/-! ## Directories are kept -/

theorem KeepsDirectories.refl (fs : FileSystem) : fs.KeepsDirectories fs :=
  ⟨rfl, fun _ t h => ⟨t, h⟩⟩

/-- Making a directory adds one where there was nothing. -/
theorem makeDirectory_ok {fs after : FileSystem} {path : String}
    (h : fs.makeDirectory path = .ok after) :
    ∃ l, fs.locate (dropSeparators path) = .ok l ∧ fs.lookup? l = none ∧
      after = fs.add l (.directory fs.clock) := by
  unfold makeDirectory at h
  cases hl : fs.locate (dropSeparators path) with
  | error e => rw [hl] at h; cases h
  | ok l =>
    rw [hl] at h
    simp only [bind, Except.bind] at h
    split at h
    · cases h
    · rename_i hnone
      cases h
      exact ⟨l, rfl, hnone, rfl⟩

/-- What making directories can come to: the first one is empty, made, or there already. -/
theorem makeDirectories_cases {path : String} {above : List String} {fs after : FileSystem}
    (h : makeDirectories (path :: above) fs = .ok after) :
    (path = "" ∧ after = fs) ∨
      ∃ between, (between = fs ∨ makeDirectories above fs = .ok between) ∧
        (between.makeDirectory path = .ok after ∨
          between.isDirectory path = true ∧ after = between) := by
  unfold makeDirectories at h
  split at h
  · rename_i hempty
    cases h
    exact .inl ⟨hempty, rfl⟩
  right
  split at h
  · rename_i made hmade
    cases h
    exact ⟨fs, .inl rfl, .inl hmade⟩
  · cases habove : makeDirectories above fs with
    | error e => rw [habove] at h; cases h
    | ok between =>
      rw [habove] at h
      simp only [bind, Except.bind] at h
      refine ⟨between, .inr rfl, ?_⟩
      split at h
      · rename_i made hmade
        cases h
        exact .inl hmade
      · split_ifs at h with hdir
        cases h
        exact .inr ⟨hdir, rfl⟩
  · split_ifs at h with hdir
    cases h
    exact ⟨_, .inl rfl, .inr ⟨hdir, rfl⟩⟩

theorem keepsDirectories_makeDirectory {fs after : FileSystem} {path : String}
    (h : fs.makeDirectory path = .ok after) : fs.KeepsDirectories after := by
  obtain ⟨l, -, hnone, rfl⟩ := makeDirectory_ok h
  exact keepsDirectories_add hnone

theorem keepsDirectories_makeDirectories {paths : List String} {fs after : FileSystem}
    (h : makeDirectories paths fs = .ok after) : fs.KeepsDirectories after := by
  induction paths generalizing fs after with
  | nil => cases h; exact .refl _
  | cons path above ih =>
    rcases makeDirectories_cases h with ⟨-, rfl⟩ | ⟨between, hbetween, hafter⟩
    · exact .refl _
    · have hfirst : fs.KeepsDirectories between := by
        rcases hbetween with rfl | habove
        · exact .refl _
        · exact ih habove
      rcases hafter with hmade | ⟨-, rfl⟩
      · exact hfirst.trans (keepsDirectories_makeDirectory hmade)
      · exact hfirst

theorem keepsDirectories_ensureDirectory {fs after : FileSystem} {path : String}
    (h : fs.ensureDirectory path = .ok after) : fs.KeepsDirectories after :=
  keepsDirectories_makeDirectories h

theorem keepsDirectories_writeIfChanged {fs after : FileSystem} {path : String} {content : Bytes}
    {written : Bool} (h : fs.writeIfChanged path content = .ok (written, after)) :
    fs.KeepsDirectories after := by
  rcases writeIfChanged_cases h with ⟨-, rfl, -⟩ | ⟨-, hwrite⟩
  · exact .refl _
  · exact keepsDirectories_write hwrite

/-! ## Separators at the end -/

theorem follow_append (fs : FileSystem) (start : Location) (front back : List String) :
    fs.follow start (front ++ back) = (fs.follow start front).bind fun l => fs.follow l back := by
  induction front generalizing start with
  | nil => rfl
  | cons piece front ih =>
    simp only [List.cons_append, follow]
    cases hdir : fs.requireDirectory start with
    | error e => rfl
    | ok u =>
      simp only [bind, Except.bind] at ih ⊢
      split_ifs
      · exact ih _
      · exact ih _
      · exact ih _

/-- A path of separators alone stays as it is, and any other one loses those at its end. -/
theorem dropSeparators_cases (path : String) :
    dropSeparators path = path ∨
      dropSeparators path ≠ "" ∧
        (dropSeparators path).toList = path.toList.rdropWhile (· == '/') := by
  unfold dropSeparators
  split
  · exact .inl rfl
  · rename_i hkept
    refine .inr ⟨?_, String.toList_ofList⟩
    simpa using hkept

theorem pieces_rdropWhile (cs : List Char) :
    ∃ n, (cs.splitOnP (· == '/')).map String.ofList =
      ((cs.rdropWhile (· == '/')).splitOnP (· == '/')).map String.ofList ++
        List.replicate n "" := by
  induction cs using List.reverseRecOn with
  | nil => exact ⟨0, by simp⟩
  | append_singleton cs c ih =>
    by_cases hc : c = '/'
    · subst hc
      obtain ⟨n, hn⟩ := ih
      refine ⟨n + 1, ?_⟩
      rw [List.splitOnP_append_cons _ _ (by decide), List.map_append, hn,
        List.rdropWhile_concat_pos _ _ _ (by decide), List.replicate_succ']
      simp
    · refine ⟨0, ?_⟩
      rw [List.rdropWhile_concat_neg _ _ _ (by simpa using hc)]
      simp

/-- Separators at the end of a path are empty pieces. -/
theorem pieces_dropSeparators (path : String) :
    ∃ n, Path.pieces path = Path.pieces (dropSeparators path) ++ List.replicate n "" := by
  rcases dropSeparators_cases path with hsame | ⟨-, hdrop⟩
  · exact ⟨0, by simp [hsame]⟩
  · rw [Path.pieces, Path.pieces, hdrop]
    exact pieces_rdropWhile path.toList

theorem dropSeparators_ne_empty {path : String} (h : path ≠ "") : dropSeparators path ≠ "" := by
  rcases dropSeparators_cases path with hsame | ⟨hne, -⟩
  · rwa [hsame]
  · exact hne

theorem isAbsolute_dropSeparators (path : String) :
    Path.isAbsolute (dropSeparators path) = Path.isAbsolute path := by
  rcases dropSeparators_cases path with hsame | ⟨hne, hdrop⟩
  · rw [hsame]
  · obtain ⟨rest, hrest⟩ := List.rdropWhile_prefix (· == '/') path.toList
    rw [← hdrop] at hrest
    unfold Path.isAbsolute
    cases hfront : (dropSeparators path).toList with
    | nil => exact absurd (by simpa using hfront) hne
    | cons c cs => rw [← hrest, hfront, List.cons_append, List.head?_cons, List.head?_cons]

/-- Empty pieces lead nowhere else. -/
theorem follow_replicate_empty {fs : FileSystem} {start l : Location} {n : Nat}
    (h : fs.follow start (List.replicate n "") = .ok l) : l = start := by
  induction n with
  | zero => cases h; rfl
  | succ n ih =>
    rw [List.replicate_succ, follow] at h
    cases hdir : fs.requireDirectory start with
    | error e => rw [hdir] at h; cases h
    | ok u =>
      rw [hdir] at h
      exact ih h

theorem follow_replicate_of_directory {fs : FileSystem} {l : Location} {t : Time}
    (h : fs.lookup? l = some (.directory t)) (n : Nat) :
    fs.follow l (List.replicate n "") = .ok l := by
  have hdir : fs.requireDirectory l = .ok () := by simp [requireDirectory, h]
  induction n with
  | zero => rfl
  | succ n ih =>
    rw [List.replicate_succ, follow, hdir]
    exact ih

theorem locate_of_ne {fs : FileSystem} {path : String} (h : path ≠ "") :
    fs.locate path = fs.follow (Path.startFrom fs.working path) (Path.pieces path) :=
  if_neg h

theorem ne_empty_of_locate {fs : FileSystem} {path : String} {l : Location}
    (h : fs.locate path = .ok l) : path ≠ "" := by
  rintro rfl
  cases h

/-- Both paths start in the same place. -/
theorem locate_dropSeparators_eq {fs : FileSystem} {path : String} (h : path ≠ "") :
    fs.locate (dropSeparators path) =
      fs.follow (Path.startFrom fs.working path) (Path.pieces (dropSeparators path)) := by
  rw [locate_of_ne (dropSeparators_ne_empty h), Path.startFrom, isAbsolute_dropSeparators,
    Path.startFrom]

/-- Without the separators at its end a path leads to the same place. -/
theorem locate_dropSeparators {fs : FileSystem} {path : String} {l : Location}
    (h : fs.locate path = .ok l) : fs.locate (dropSeparators path) = .ok l := by
  have hne := ne_empty_of_locate h
  obtain ⟨n, hn⟩ := pieces_dropSeparators path
  rw [locate_of_ne hne, hn, follow_append] at h
  rw [locate_dropSeparators_eq hne]
  cases hfront : fs.follow (Path.startFrom fs.working path)
      (Path.pieces (dropSeparators path)) with
  | error e => rw [hfront] at h; cases h
  | ok m =>
    rw [hfront] at h
    rw [follow_replicate_empty h]

/-- With separators at its end a path leads to the same place if that is a directory. -/
theorem locate_of_dropSeparators {fs : FileSystem} {path : String} {l : Location} {t : Time}
    (h : fs.locate (dropSeparators path) = .ok l) (hdir : fs.lookup? l = some (.directory t)) :
    fs.locate path = .ok l := by
  have hne : path ≠ "" := by
    rintro rfl
    cases h
  obtain ⟨n, hn⟩ := pieces_dropSeparators path
  rw [locate_dropSeparators_eq hne] at h
  rw [locate_of_ne hne, hn, follow_append, h]
  exact follow_replicate_of_directory hdir n

/-! ## Directories that are there -/

theorem isDirectory_iff {fs : FileSystem} {path : String} :
    fs.isDirectory path = true ↔
      ∃ l t, fs.locate path = .ok l ∧ fs.lookup? l = some (.directory t) := by
  unfold isDirectory stat
  cases hl : fs.locate path with
  | error e => simp [bind, Except.bind]
  | ok l =>
    cases he : fs.lookup? l with
    | none => simp [bind, Except.bind, he]
    | some e =>
      cases e with
      | file c t => simp [bind, Except.bind, he, FileEntry.isDirectory]
      | directory t => simp [bind, Except.bind, he, FileEntry.isDirectory]

theorem KeepsDirectories.isDirectory {fs after : FileSystem} (hkeep : fs.KeepsDirectories after)
    {path : String} (h : fs.isDirectory path = true) : after.isDirectory path = true := by
  obtain ⟨l, t, hl, ht⟩ := isDirectory_iff.mp h
  obtain ⟨u, hu⟩ := hkeep.directory l t ht
  exact isDirectory_iff.mpr ⟨l, u, hkeep.locate hl, hu⟩

theorem isDirectory_of_makeDirectory {fs after : FileSystem} {path : String}
    (h : fs.makeDirectory path = .ok after) : after.isDirectory path = true := by
  have hkeep := keepsDirectories_makeDirectory h
  obtain ⟨l, hl, hnone, rfl⟩ := makeDirectory_ok h
  have hset : (fs.set l (.directory fs.clock)).lookup? l = some (.directory fs.clock) := by
    rw [lookup?_set, if_pos rfl]
  obtain ⟨u, hu⟩ := (keepsDirectories_mark _ l.dropLast).directory l _ hset
  exact isDirectory_iff.mpr ⟨l, u, locate_of_dropSeparators (hkeep.locate hl) hu, hu⟩

theorem isDirectory_of_ensureDirectory {fs after : FileSystem} {path : String}
    (h : fs.ensureDirectory path = .ok after) : path = "" ∨ after.isDirectory path = true := by
  rcases makeDirectories_cases h with ⟨hempty, -⟩ | ⟨between, -, hmade | ⟨hdir, rfl⟩⟩
  · exact .inl hempty
  · exact .inr (isDirectory_of_makeDirectory hmade)
  · exact .inr hdir

/-- Where there is a directory, none is made. -/
theorem ensureDirectory_of_isDirectory {fs : FileSystem} {path : String}
    (h : path = "" ∨ fs.isDirectory path = true) : fs.ensureDirectory path = .ok fs := by
  unfold ensureDirectory Path.ancestors Path.ancestorsUpTo makeDirectories
  split
  · rfl
  rename_i hne
  have hdir := h.resolve_left hne
  obtain ⟨l, t, hl, ht⟩ := isDirectory_iff.mp hdir
  have hexists : fs.makeDirectory path = .error .alreadyExists := by
    unfold makeDirectory
    simp [bind, Except.bind, locate_dropSeparators hl, ht]
  rw [hexists]
  simp [hdir]

/-- **A directory that was made is there for good.** -/
theorem ensureDirectory_again {fs after later : FileSystem} {path : String}
    (h : fs.ensureDirectory path = .ok after) (hkeep : after.KeepsDirectories later) :
    later.ensureDirectory path = .ok later :=
  ensureDirectory_of_isDirectory ((isDirectory_of_ensureDirectory h).imp_right hkeep.isDirectory)

end HeaderReflect.FileSystem
