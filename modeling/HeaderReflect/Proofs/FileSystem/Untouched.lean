import HeaderReflect.Proofs.FileSystem.Directories

/-!
Files that are left alone. One that holds its content already is not written
(`writeIfChanged_of_read`), and making directories or writing other files does not touch it: what a
path names changes only if it is written or a directory (`stat_of_spares`).
-/

namespace HeaderReflect.FileSystem

/-! ## Files that are there -/

theorem locate_of_writeIfChanged {fs after : FileSystem} {path : String} {content : Bytes}
    {written : Bool} (h : fs.writeIfChanged path content = .ok (written, after)) :
    ∃ l, fs.locate path = .ok l := by
  rcases writeIfChanged_cases h with ⟨-, -, hread⟩ | ⟨-, hwrite⟩
  · obtain ⟨l, hl, -⟩ := locate_of_read hread
    exact ⟨l, hl⟩
  · obtain ⟨l, hl, -⟩ := write_cases hwrite
    exact ⟨l, hl⟩

/-- **A file that holds its content already is not written.** -/
theorem writeIfChanged_of_read {fs : FileSystem} {path : String} {content : Bytes}
    (h : fs.read path = .ok content) : fs.writeIfChanged path content = .ok (false, fs) := by
  unfold writeIfChanged
  rw [h]
  exact if_pos rfl

theorem write_of_content {fs : FileSystem} {path : String} {l : Location} {old : Bytes}
    (hsep : endsWithSeparator path = false) (hl : fs.locate path = .ok l)
    (hold : fs.content? l = some old) (content : Bytes) :
    fs.write path content = .ok (fs.set l (.file content fs.clock)).tick := by
  unfold content? at hold
  unfold write
  rw [hsep, if_neg Bool.false_ne_true, hl]
  cases hfound : fs.lookup? l with
  | none => rw [hfound] at hold; cases hold
  | some e =>
    rw [hfound] at hold
    cases e with
    | file c t => simp [bind, Except.bind, hfound]
    | directory t => cases hold

theorem endsWithSeparator_of_write {fs after : FileSystem} {path : String} {content : Bytes}
    (h : fs.write path content = .ok after) : endsWithSeparator path = false := by
  unfold write at h
  split at h
  · cases hl : fs.locate (dropSeparators path) with
    | error e => rw [hl] at h; cases h
    | ok l => rw [hl] at h; cases h
  · rename_i hsep
    exact Bool.eq_false_iff.mpr hsep

/-- A file can be written once more, and its content stays. -/
theorem write_again {fs after : FileSystem} {path : String} {content : Bytes}
    (h : fs.write path content = .ok after) :
    ∃ again, after.write path content = .ok again ∧ again.content? = after.content? := by
  obtain ⟨l, hl, hcontent⟩ := locate_of_read (read_of_write h)
  refine ⟨_, write_of_content (endsWithSeparator_of_write h) hl hcontent content, ?_⟩
  funext m
  rw [content?_tick, content?_set]
  split_ifs with hm
  · rw [hm, hcontent]
    rfl
  · rfl

/-! ## What is left alone -/

/-- Nothing changes at other locations than the given ones, directories apart. -/
def Spares (fs after : FileSystem) (written : List Location) : Prop :=
  ∀ l, l ∉ written → after.lookup? l = fs.lookup? l ∨ ∃ t, after.lookup? l = some (.directory t)

theorem Spares.refl (fs : FileSystem) : fs.Spares fs [] := fun _ _ => .inl rfl

theorem Spares.trans {fs between after : FileSystem} {first second : List Location}
    (h : fs.Spares between first) (hmore : between.Spares after second)
    (hkeep : between.KeepsDirectories after) : fs.Spares after (first ++ second) := by
  intro l hl
  rw [List.mem_append, not_or] at hl
  rcases hmore l hl.2 with hsame | hdir
  · rcases h l hl.1 with hfirst | ⟨t, ht⟩
    · exact .inl (hsame.trans hfirst)
    · exact .inr (hkeep.directory l t ht)
  · exact .inr hdir

theorem spares_set (fs : FileSystem) (l : Location) (e : FileEntry) :
    fs.Spares (fs.set l e) [l] := by
  intro m hm
  have hne : m ≠ l := by simpa using hm
  exact .inl ((lookup?_set ..).trans (if_neg hne))

theorem spares_mark (fs : FileSystem) (l : Location) : fs.Spares (fs.mark l) [] := by
  intro m _
  unfold mark
  split
  · rw [lookup?_set]
    split_ifs
    · exact .inr ⟨_, rfl⟩
    · exact .inl rfl
  · exact .inl rfl

/-- A new entry leaves all but its directory alone. -/
theorem spares_add (fs : FileSystem) (l : Location) (e : FileEntry) :
    fs.Spares (fs.add l e) [l] := by
  have hkeep : (fs.set l e).KeepsDirectories (fs.add l e) :=
    (keepsDirectories_mark _ _).trans (keepsDirectories_tick _)
  exact (fs.spares_set l e).trans (spares_mark _ _) hkeep

theorem spares_write {fs after : FileSystem} {path : String} {content : Bytes}
    (h : fs.write path content = .ok after) :
    fs.Spares after [Path.location fs.working path] := by
  obtain ⟨l, hl, hafter⟩ := write_cases h
  rw [location_of_locate hl]
  rcases hafter with ⟨old, t, -, rfl⟩ | ⟨-, rfl⟩
  · exact fs.spares_set l _
  · exact fs.spares_add l _

theorem spares_makeDirectory {fs after : FileSystem} {path : String}
    (h : fs.makeDirectory path = .ok after) : fs.Spares after [] := by
  obtain ⟨l, -, -, rfl⟩ := makeDirectory_ok h
  intro m _
  by_cases hm : m = l
  · have hset : (fs.set l (.directory fs.clock)).lookup? l = some (.directory fs.clock) := by
      rw [lookup?_set, if_pos rfl]
    exact .inr (hm ▸ (keepsDirectories_mark _ l.dropLast).directory l _ hset)
  · exact fs.spares_add l _ m (by simpa using hm)

theorem spares_makeDirectories {paths : List String} {fs after : FileSystem}
    (h : makeDirectories paths fs = .ok after) : fs.Spares after [] := by
  induction paths generalizing fs after with
  | nil => cases h; exact .refl _
  | cons path above ih =>
    rcases makeDirectories_cases h with ⟨-, rfl⟩ | ⟨between, hbetween, hafter⟩
    · exact .refl _
    · have hfirst : fs.Spares between [] := by
        rcases hbetween with rfl | habove
        · exact .refl _
        · exact ih habove
      rcases hafter with hmade | ⟨-, rfl⟩
      · exact hfirst.trans (spares_makeDirectory hmade) (keepsDirectories_makeDirectory hmade)
      · exact hfirst

theorem spares_ensureDirectory {fs after : FileSystem} {path : String}
    (h : fs.ensureDirectory path = .ok after) : fs.Spares after [] :=
  spares_makeDirectories h

/-- **What is neither written nor a directory is named as before.** The path has to name a file
before and after. -/
theorem stat_of_spares {fs after : FileSystem} {written : List Location} {path : String}
    (hspares : fs.Spares after written) (hkeep : fs.KeepsDirectories after)
    (hbefore : fs.isFile path = true) (hafter : after.isDirectory path = false)
    (hnot : Path.location fs.working path ∉ written) : after.stat path = fs.stat path := by
  unfold isFile stat at hbefore
  cases hl : fs.locate path with
  | error e => rw [hl] at hbefore; cases hbefore
  | ok l =>
    rw [location_of_locate hl] at hnot
    unfold stat
    rw [hl, hkeep.locate hl]
    rcases hspares l hnot with hsame | ⟨t, ht⟩
    · simp only [bind, Except.bind, hsame]
    · have hdir : after.isDirectory path = true :=
        isDirectory_iff.mpr ⟨l, t, hkeep.locate hl, ht⟩
      rw [hdir] at hafter
      cases hafter

end HeaderReflect.FileSystem
