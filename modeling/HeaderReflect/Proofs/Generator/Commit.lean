import HeaderReflect.Proofs.Cache.Tally
import HeaderReflect.Proofs.Generator.History
import HeaderReflect.Proofs.Generator.Remains

/-!
Storing the cache is the last thing a run does. A run that fails, at whatever point, leaves the blob
as it was, and if it fails before its actions it leaves all files as they were. A run that succeeds
has stored its fingerprint with one entry for each header that is there
(`blob_kept_unless_run_succeeds`).
-/

namespace HeaderReflect

/-! ## What lasts along a run -/

/-- No directory is taken away, and a store that works goes on working. -/
structure World.Lasts (w v : World) : Prop where
  directories : w.files.KeepsDirectories v.files
  loads : v.memory.failLoads = w.memory.failLoads
  saves : v.memory.failSaves = w.memory.failSaves

theorem World.Lasts.refl (w : World) : w.Lasts w := ⟨.refl _, rfl, rfl⟩

theorem World.Lasts.trans {w v u : World} (h : w.Lasts v) (hmore : v.Lasts u) : w.Lasts u where
  directories := h.directories.trans hmore.directories
  loads := hmore.loads.trans h.loads
  saves := hmore.saves.trans h.saves

namespace CachePlace

theorem lasts_load (place : CachePlace) (w : World) : w.Lasts (place.load cacheKey w).2 := by
  cases place with
  | inMemory =>
    simp only [load, MemoryStore.load]
    split_ifs
    · exact ⟨.refl _, rfl, rfl⟩
    · split
      · exact ⟨.refl _, rfl, rfl⟩
      · exact ⟨.refl _, rfl, rfl⟩
  | inDirectory base =>
    simp only [load]
    split
    · exact .refl w
    · exact .refl w
    · exact .refl w

theorem lasts_save (place : CachePlace) (blob : Bytes) (w : World) :
    w.Lasts (place.save cacheKey blob w).2 := by
  have hkeep := place.keepsDirectories_save blob w
  cases place with
  | inMemory =>
    simp only [save, MemoryStore.save]
    split_ifs
    · exact ⟨.refl _, rfl, rfl⟩
    · exact ⟨.refl _, rfl, rfl⟩
  | inDirectory base =>
    simp only [save, saveIn] at hkeep ⊢
    split at hkeep
    · exact .refl w
    · split at hkeep
      · exact ⟨hkeep, rfl, rfl⟩
      · exact ⟨hkeep, rfl, rfl⟩

/-- A blob that was loaded can be loaded again where it is still the same. -/
theorem load_of_lasts {place : CachePlace} {w v : World} {blob : Bytes} (hlasts : w.Lasts v)
    (hblob : place.blob? v = place.blob? w) (hload : (place.load cacheKey w).1 = .ok blob) :
    (place.load cacheKey v).1 = .ok blob := by
  have hsome : place.blob? v = some blob := hblob.trans ((place.load_spec w).2.2 blob hload)
  cases place with
  | inMemory =>
    simp only [load, MemoryStore.load, hlasts.loads] at hload ⊢
    split_ifs at hload ⊢
    have hfind : v.memory.find? cacheKey = some blob := hsome
    rw [hfind]
  | inDirectory base =>
    have hread : w.files.read (fileOf base cacheKey) = .ok blob := by
      simp only [load] at hload
      split at hload
      · rename_i found hfound
        cases hload
        exact hfound
      · cases hload
      · cases hload
    obtain ⟨l, hl, -⟩ := FileSystem.locate_of_read hread
    have hcontent : v.files.content? l = some blob := by
      rw [blob?, hlasts.directories.working, FileSystem.location_of_locate hl] at hsome
      exact hsome
    simp only [load, FileSystem.read_of_content (hlasts.directories.locate hl) hcontent]

end CachePlace

namespace Generator

theorem lasts_startCache (g : Generator) (w : World) : w.Lasts (g.startCache w).2 := by
  unfold startCache
  split_ifs
  · exact .refl w
  · exact g.cachePlace.lasts_load w

theorem Refreshed.lasts {g : Generator} {w v : World} {files : List String}
    {warnings : List Warning} {r : Refresh} {fatal : Option VisitError}
    (h : g.Refreshed w files v warnings r fatal) : w.Lasts v := by
  obtain ⟨cache, hstart, -⟩ := h
  have hlasts := g.lasts_startCache w
  rwa [hstart] at hlasts

theorem lasts_performAll {g : Generator} {as : List Action} {p q : Progress}
    {failure : Option RunError} (has : ∀ a ∈ as, a.IsOutput g)
    (h : g.performAll p as = (q, failure)) : p.world.Lasts q.world := by
  have hmemory : q.world.memory = p.world.memory := by
    cases failure with
    | none => exact (content?_performAll has h).1
    | some e =>
      obtain ⟨done, hpart, hperformed⟩ := performAll_failed has h
      exact (content?_performAll (fun a ha => has a (hpart.subset ha)) hperformed).1
  exact ⟨keepsDirectories_performAll has h, by rw [hmemory], by rw [hmemory]⟩

/-- The step lemmas together: loading, acting and saving take nothing away, so a run does not. -/
theorem lasts_run (g : Generator) (w : World) (files : List String) :
    w.Lasts (g.run w files).world := by
  have hacted {v : World} {warnings : List Warning} {r : Refresh} {q : Progress}
      {failure : Option RunError} (hr : g.Refreshed w files v warnings r none)
      (hp : g.performAll (begun w files v warnings r)
        (g.outputActions r.report.changed r.entries) = (q, failure)) : w.Lasts q.world :=
    hr.lasts.trans (lasts_performAll (fun a => isOutput_outputActions) hp)
  have hsaved {blob : Bytes} {v after : World} {saved : Except CacheError Unit}
      (hsave : g.cachePlace.save cacheKey blob v = (saved, after)) : v.Lasts after := by
    have hlasts := g.cachePlace.lasts_save blob v
    rwa [hsave] at hlasts
  have hcourse := g.course_run w files
  generalize g.run w files = outcome at hcourse ⊢
  cases hcourse with
  | unloaded hstart =>
    have hlasts := g.lasts_startCache w
    rwa [hstart] at hlasts
  | conflicting hrefreshed => exact hrefreshed.lasts
  | stuck hrefreshed hperformed => exact hacted hrefreshed hperformed
  | unsaved hrefreshed hperformed hsave => exact (hacted hrefreshed hperformed).trans (hsaved hsave)
  | finished hrefreshed hperformed hsave =>
    exact (hacted hrefreshed hperformed).trans (hsaved hsave)

/-! ## Runs that fail -/

/-- No action finds declarations that cannot be reconciled. -/
theorem perform_ne_conflict {g : Generator} {p q : Progress} {a : Action} {reason : String} :
    g.perform p a ≠ (q, some (.unsupportedMergeConflict reason)) := by
  intro h
  cases a with
  | makeDirectory path =>
    simp only [perform] at h
    split at h <;> cases h
  | warn warning => cases h
  | write path text =>
    simp only [perform] at h
    split at h <;> cases h
  | giveUp e => cases h
  | saveCache c =>
    simp only [perform] at h
    split at h <;> cases h

theorem performAll_ne_conflict {g : Generator} {as : List Action} {p q : Progress}
    {reason : String} : g.performAll p as ≠ (q, some (.unsupportedMergeConflict reason)) := by
  intro h
  induction as generalizing p with
  | nil => cases h
  | cons a rest ih =>
    unfold performAll at h
    split at h
    · exact ih h
    · rename_i hperform
      cases h
      exact perform_ne_conflict hperform

/-- A run that cannot load its cache or reconcile declarations has not touched any file. -/
theorem files_of_run_error {g : Generator} {w : World} {files : List String} {e : RunError}
    (h : (g.run w files).result = .error e)
    (hearly : (∃ f, (g.startCache w).1 = .error f) ∨
      ∃ reason, e = .unsupportedMergeConflict reason) :
    (g.run w files).world.files = w.files := by
  have hcourse := g.course_run w files
  generalize g.run w files = outcome at hcourse h ⊢
  have hlate {v : World} {warnings : List Warning} {r : Refresh} {fatal : Option VisitError}
      (hr : g.Refreshed w files v warnings r fatal)
      (hne : ∀ reason, e ≠ .unsupportedMergeConflict reason) : False := by
    obtain ⟨cache, hstart, -⟩ := hr
    rcases hearly with ⟨f, hf⟩ | ⟨reason, hreason⟩
    · rw [hstart] at hf
      cases hf
    · exact hne reason hreason
  cases hcourse with
  | unloaded hstart =>
    have hfiles := (g.startCache_spec w).1
    rwa [hstart] at hfiles
  | conflicting hrefreshed => exact hrefreshed.files_eq
  | stuck hrefreshed hperformed =>
    cases h
    refine (hlate hrefreshed fun reason hreason => ?_).elim
    rw [hreason] at hperformed
    exact performAll_ne_conflict hperformed
  | unsaved hrefreshed hperformed hsave =>
    cases h
    exact (hlate hrefreshed nofun).elim
  | finished hrefreshed hperformed hsave => cases h

/-! ## Runs that succeed -/

/-- A run that succeeds has stored what it entered, for each header that is there. -/
theorem stored_of_run_ok {g : Generator} {w : World} {files : List String} {s : RunSummary}
    (h : (g.run w files).result = .ok s) :
    ∃ cache warnings r, (g.startCache w).1 = .ok (cache, warnings) ∧
      cache.refresh (g.visit w.files) (candidates w files) = (r, none) ∧
      g.cachePlace.blob? (g.run w files).world = some (Blob.ofCache ⟨g.fingerprint, r.entries⟩) ∧
      ((g.cachePlace = .inMemory → w.memory.failLoads = false) →
        (g.cachePlace.load cacheKey (g.run w files).world).1 =
          .ok (Blob.ofCache ⟨g.fingerprint, r.entries⟩)) := by
  obtain ⟨v, warnings, r, q, hfinished⟩ := exists_finished h
  obtain ⟨cache, hstart, hrefresh⟩ := hfinished.refreshed
  refine ⟨cache, warnings, r, by rw [hstart], hrefresh,
    CachePlace.blob?_of_save hfinished.saved, fun hanswers => ?_⟩
  apply CachePlace.load_of_save hfinished.saved
  intro hplace
  exact (g.lasts_run w files).loads.trans (hanswers hplace)

/-- **A run that fails commits nothing.** The blob stays as it was and is loaded as before. If the
cache could not be loaded or declarations could not be reconciled, no file or directory was touched.
A run that succeeds has committed its fingerprint and all of its entries, one for each key of a
header that is there. -/
theorem blob_kept_unless_run_succeeds (g : Generator) (w : World) (files : List String) :
    (∀ e, (g.run w files).result = .error e →
      g.cachePlace.blob? (g.run w files).world = g.cachePlace.blob? w ∧
      (∀ blob, (g.cachePlace.load cacheKey w).1 = .ok blob →
        (g.cachePlace.load cacheKey (g.run w files).world).1 = .ok blob) ∧
      ((∃ f, (g.startCache w).1 = .error f) ∨ (∃ reason, e = .unsupportedMergeConflict reason) →
        (g.run w files).world.files = w.files)) ∧
    ∀ s, (g.run w files).result = .ok s →
      ∃ cache warnings r, (g.startCache w).1 = .ok (cache, warnings) ∧
        cache.refresh (g.visit w.files) (candidates w files) = (r, none) ∧
        (∀ key, r.entries.contains key = true ↔ key ∈ Candidate.keys (candidates w files)) ∧
        g.cachePlace.blob? (g.run w files).world = some (Blob.ofCache ⟨g.fingerprint, r.entries⟩) ∧
        ((g.cachePlace = .inMemory → w.memory.failLoads = false) →
          (g.cachePlace.load cacheKey (g.run w files).world).1 =
            .ok (Blob.ofCache ⟨g.fingerprint, r.entries⟩)) := by
  refine ⟨fun e he => ?_, fun s hs => ?_⟩
  · obtain ⟨wrote, hstopped⟩ := run_failed he
    refine ⟨hstopped.blob, fun blob hload => ?_, files_of_run_error he⟩
    exact CachePlace.load_of_lasts (g.lasts_run w files) hstopped.blob hload
  · obtain ⟨cache, warnings, r, hstart, hrefresh, hblob, hload⟩ := stored_of_run_ok hs
    exact ⟨cache, warnings, r, hstart, hrefresh, (Cache.tally_of_refresh hrefresh).contains_iff,
      hblob, hload⟩

end Generator

/-! ## Enumerations that cannot be reconciled -/

namespace Sample

/-- A generator for which every header declares one enumeration in two ways. -/
def contradicted : Generator :=
  { generator with
    cursors := fun path =>
      .ok ((Cursor.unit path).append
        [(Cursor.enumDecl "Color" ["red"]).annotate "nickel(refl)",
         (Cursor.enumDecl "Color" ["blue"]).annotate "nickel(refl)"]).located }

/-- The generator with a store on disk, below the root. -/
def onDisk : Generator := { generator with cachePlace := .inDirectory "/var/cache" }

end Sample

/-- One header still holds and the other one cannot be visited: the run fails, and a later one finds
the blob of the first run. Without the contradiction both entries are stored, also on disk. -/
theorem Generator.blob_kept_unless_run_succeeds_contradicted :
    (∃ reason blob, (Sample.contradicted.run Sample.touched Sample.paths).result =
        .error (.unsupportedMergeConflict reason) ∧
      (CachePlace.inMemory.load cacheKey Sample.touched).1 = .ok blob ∧
      (CachePlace.inMemory.load cacheKey
        (Sample.contradicted.run Sample.touched Sample.paths).world).1 = .ok blob ∧
      (Sample.contradicted.run Sample.touched Sample.paths).world.files = Sample.touched.files) ∧
    ∃ s, (Sample.onDisk.run Sample.touched Sample.paths).result = .ok s ∧
      ∃ r : Refresh, r.entries.contains "/a.h" = true ∧ r.entries.contains "b.h" = true ∧
        ((CachePlace.inDirectory "/var/cache").load cacheKey
          (Sample.onDisk.run Sample.touched Sample.paths).world).1 =
            .ok (Blob.ofCache ⟨Sample.onDisk.fingerprint, r.entries⟩) := by
  obtain ⟨hfails, hloads, hruns, hkeys⟩ :
      (Sample.contradicted.run Sample.touched Sample.paths).result =
        .error (.unsupportedMergeConflict "b.h: conflicting enum declarations named `Color`") ∧
      (CachePlace.inMemory.load cacheKey Sample.touched).1.toOption.isSome = true ∧
      (Sample.onDisk.run Sample.touched Sample.paths).result.toOption =
        some { visited := 2, written := 8 } ∧
      ∀ key ∈ ["/a.h", "b.h"], key ∈ Candidate.keys (candidates Sample.touched Sample.paths) := by
    decide +kernel
  obtain ⟨blob, hblob⟩ := Option.isSome_iff_exists.mp hloads
  have hload := toOption_eq_some_iff.mp hblob
  have hok := toOption_eq_some_iff.mp hruns
  obtain ⟨-, hkept, hfiles⟩ :=
    (blob_kept_unless_run_succeeds Sample.contradicted Sample.touched Sample.paths).1 _ hfails
  obtain ⟨cache, warnings, r, -, -, hentries, -, hstored⟩ :=
    (blob_kept_unless_run_succeeds Sample.onDisk Sample.touched Sample.paths).2 _ hok
  refine ⟨⟨_, blob, hfails, hload, hkept blob hload, hfiles (.inr ⟨_, rfl⟩)⟩, _, hok, r, ?_, ?_,
    hstored nofun⟩
  · exact (hentries "/a.h").mpr (hkeys "/a.h" (by decide))
  · exact (hentries "b.h").mpr (hkeys "b.h" (by decide))

end HeaderReflect
