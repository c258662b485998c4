import HeaderReflect.Proofs.Cache.Storage
import HeaderReflect.Proofs.FileSystem.Untouched
import HeaderReflect.Proofs.Generator.Course

/-!
What the actions of a run leave behind for good. Directories are kept all along
(`keepsDirectories_performAll`), so at the end every directory that was made is still there, every
path that was written can be followed, and what is read there was written last
(`read_of_performAll`). A run touches no file but those it writes (`written`, `spares_performAll`),
and saving the cache adds its own.
-/

namespace HeaderReflect

namespace Generator

/-! ## Actions -/

theorem keepsDirectories_perform {g : Generator} {p q : Progress} {a : Action}
    {failure : Option RunError} (ha : a.IsOutput g) (h : g.perform p a = (q, failure)) :
    p.world.files.KeepsDirectories q.world.files := by
  cases failure with
  | some e =>
    obtain rfl := perform_failed ha h
    exact .refl _
  | none => exact (perform_ok ha h).2.1

theorem keepsDirectories_performAll {g : Generator} {as : List Action} {p q : Progress}
    {failure : Option RunError} (has : ∀ a ∈ as, a.IsOutput g)
    (h : g.performAll p as = (q, failure)) : p.world.files.KeepsDirectories q.world.files := by
  induction as generalizing p with
  | nil => cases h; exact .refl _
  | cons a rest ih =>
    have ha := has a (List.mem_cons_self ..)
    unfold performAll at h
    split at h
    · rename_i r hr
      have hrest := ih (fun b hb => has b (List.mem_cons_of_mem _ hb)) h
      exact (keepsDirectories_perform ha hr).trans hrest
    · rename_i hr
      cases h
      exact keepsDirectories_perform ha hr

/-- An action among others that all succeed succeeds in a world from which the last one was
reached. -/
theorem exists_perform_of_mem {g : Generator} {as : List Action} {p q : Progress} {a : Action}
    (has : ∀ a ∈ as, a.IsOutput g) (h : g.performAll p as = (q, none)) (ha : a ∈ as) :
    ∃ before after, g.perform before a = (after, none) ∧
      after.world.files.KeepsDirectories q.world.files := by
  induction as generalizing p with
  | nil => cases ha
  | cons b rest ih =>
    unfold performAll at h
    split at h
    · rename_i r hr
      have hrest : ∀ c ∈ rest, c.IsOutput g := fun c hc => has c (List.mem_cons_of_mem _ hc)
      rcases List.mem_cons.mp ha with rfl | hmem
      · exact ⟨p, r, hr, keepsDirectories_performAll hrest h⟩
      · exact ih hrest h hmem
    · cases h

/-- A directory that was made is there at the end. -/
theorem ensureDirectory_of_performAll {g : Generator} {as : List Action} {p q : Progress}
    {path : String} (has : ∀ a ∈ as, a.IsOutput g) (h : g.performAll p as = (q, none))
    (hmem : .makeDirectory path ∈ as) :
    q.world.files.ensureDirectory path = .ok q.world.files := by
  obtain ⟨before, after, hperform, hkeep⟩ := exists_perform_of_mem has h hmem
  obtain ⟨_, files, heq, hfiles, rfl⟩ | ⟨_, heq, -⟩ | ⟨_, _, _, _, heq, -⟩ :=
    perform_cases (has _ hmem) hperform
  · cases heq
    exact FileSystem.ensureDirectory_again hfiles hkeep
  · cases heq
  · cases heq

/-- A path that was written can be followed at the end. -/
theorem locate_of_performAll {g : Generator} {as : List Action} {p q : Progress}
    {path text : String} (has : ∀ a ∈ as, a.IsOutput g) (h : g.performAll p as = (q, none))
    (hmem : .write path text ∈ as) : ∃ l, q.world.files.locate path = .ok l := by
  obtain ⟨before, after, hperform, hkeep⟩ := exists_perform_of_mem has h hmem
  obtain ⟨_, _, heq, -⟩ | ⟨_, heq, -⟩ | ⟨_, _, changed, files, heq, hwrite, rfl⟩ :=
    perform_cases (has _ hmem) hperform
  · cases heq
  · cases heq
  · cases heq
    obtain ⟨l, hl⟩ := FileSystem.locate_of_writeIfChanged hwrite
    have hfirst := (FileSystem.keepsDirectories_writeIfChanged hwrite).locate hl
    exact ⟨l, hkeep.locate hfirst⟩

/-- **What is read at the end was written last.** -/
theorem read_of_performAll {g : Generator} {as : List Action} {p q : Progress} {path text : String}
    {content : Bytes} (has : ∀ a ∈ as, a.IsOutput g) (h : g.performAll p as = (q, none))
    (hmem : .write path text ∈ as)
    (hlast : Action.leavesAll p.world.files.working (Path.location p.world.files.working path) as =
      some content) :
    q.world.files.read path = .ok content := by
  obtain ⟨l, hl⟩ := locate_of_performAll has h hmem
  obtain ⟨-, hkeep, hcontent⟩ := content?_performAll has h
  apply FileSystem.read_of_content hl
  have hlocation := FileSystem.location_of_locate hl
  rw [hkeep.working] at hlocation
  rw [hcontent l, ← hlocation, hlast]
  rfl

end Generator

/-! ## What a run has written -/

/-- The location that an action writes to. A file that holds its text already is not written. -/
def Action.writes (fs : FileSystem) : Action → List Location
  | .write path text =>
    match fs.writeIfChanged path (Text.utf8 text) with
    | .ok (true, _) => [Path.location fs.working path]
    | _ => []
  | _ => []

namespace Generator

/-- The locations that actions write to one after another. -/
def writtenBy (g : Generator) : Progress → List Action → List Location
  | _, [] => []
  | p, a :: rest => a.writes p.world.files ++ g.writtenBy (g.perform p a).1 rest

/-- The locations that a run writes to, that of the blob included. -/
def written (g : Generator) (w : World) (files : List String) : List Location :=
  match g.startCache w with
  | (.error _, _) => []
  | (.ok (cache, warnings), v) =>
    let r := (cache.refresh (g.visit w.files) (candidates w files)).1
    g.writtenBy (begun w files v warnings r) (g.outputActions r.report.changed r.entries)
      ++ (g.cachePlace.location? w.files.working).toList

theorem spares_perform {g : Generator} {p q : Progress} {a : Action} (ha : a.IsOutput g)
    (h : g.perform p a = (q, none)) :
    p.world.files.Spares q.world.files (a.writes p.world.files) := by
  obtain ⟨path, files, rfl, hfiles, rfl⟩ | ⟨warning, rfl, rfl⟩ |
    ⟨path, text, changed, files, rfl, hwrite, rfl⟩ := perform_cases ha h
  · exact FileSystem.spares_ensureDirectory hfiles
  · exact .refl _
  · simp only [Action.writes, hwrite]
    rcases FileSystem.writeIfChanged_cases hwrite with ⟨rfl, rfl, -⟩ | ⟨rfl, hwritten⟩
    · exact .refl _
    · exact FileSystem.spares_write hwritten

theorem spares_performAll {g : Generator} {as : List Action} {p q : Progress}
    (has : ∀ a ∈ as, a.IsOutput g) (h : g.performAll p as = (q, none)) :
    p.world.files.Spares q.world.files (g.writtenBy p as) := by
  induction as generalizing p with
  | nil => cases h; exact .refl _
  | cons a rest ih =>
    have hrest : ∀ b ∈ rest, b.IsOutput g := fun b hb => has b (List.mem_cons_of_mem _ hb)
    unfold performAll at h
    split at h
    · rename_i r hr
      rw [writtenBy, hr]
      have hfirst := spares_perform (has a (List.mem_cons_self ..)) hr
      exact hfirst.trans (ih hrest h) (keepsDirectories_performAll hrest h)
    · cases h

end Generator

/-! ## Saving the cache -/

namespace CachePlace

/-- Saving leaves all other files readable as they are. -/
theorem read_of_save {place : CachePlace} {blob : Bytes} {w after : World}
    {saved : Except CacheError Unit} (hsave : place.save cacheKey blob w = (saved, after))
    {path : String} {content : Bytes}
    (hplace : place.location? w.files.working ≠ some (Path.location w.files.working path))
    (h : w.files.read path = .ok content) : after.files.read path = .ok content := by
  have hkeep := place.keepsDirectories_save blob w
  obtain ⟨-, hothers⟩ := place.save_spec blob w
  rw [hsave] at hkeep hothers
  obtain ⟨l, hl, hcontent⟩ := FileSystem.locate_of_read h
  rw [FileSystem.location_of_locate hl] at hplace
  apply FileSystem.read_of_content (hkeep.locate hl)
  exact (hothers l hplace).trans hcontent

theorem spares_save {place : CachePlace} {blob : Bytes} {w v : World}
    (hsave : place.save cacheKey blob w = (.ok (), v)) :
    w.files.Spares v.files (place.location? w.files.working).toList := by
  obtain ⟨rfl, -, rfl⟩ | ⟨base, made, written, rfl, hmade, hwritten, rfl⟩ := save_cases hsave
  · exact .refl _
  · have hworking := (FileSystem.keepsDirectories_ensureDirectory hmade).working
    rw [location?, ← hworking]
    exact (FileSystem.spares_ensureDirectory hmade).trans (FileSystem.spares_write hwritten)
      (FileSystem.keepsDirectories_write hwritten)

/-- A blob that was saved can be saved once more, and all contents stay. -/
theorem save_again {place : CachePlace} {blob : Bytes} {w v u : World}
    (hsave : place.save cacheKey blob w = (.ok (), v)) (hfiles : u.files = v.files)
    (hsaves : u.memory.failSaves = v.memory.failSaves) :
    ∃ x, place.save cacheKey blob u = (.ok (), x) ∧ x.files.content? = u.files.content? := by
  obtain ⟨rfl, hworks, rfl⟩ | ⟨base, made, written, rfl, hmade, hwritten, rfl⟩ := save_cases hsave
  · have hstill : u.memory.failSaves = false := hsaves.trans hworks
    simp only [save, MemoryStore.save, hstill]
    exact ⟨_, rfl, rfl⟩
  · obtain ⟨again, hagain, hcontent⟩ := FileSystem.write_again hwritten
    have hdir := FileSystem.ensureDirectory_again hmade
      (FileSystem.keepsDirectories_write hwritten)
    simp only [save, saveIn, hfiles, hdir, hagain]
    exact ⟨_, rfl, hcontent⟩

end CachePlace

end HeaderReflect
