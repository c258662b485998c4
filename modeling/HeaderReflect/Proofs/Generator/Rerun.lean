import HeaderReflect.Proofs.Generator.Attempts
import HeaderReflect.Proofs.Generator.Commit
import HeaderReflect.Proofs.Generator.Outputs

/-!
A second run right after one that succeeded. It finds all of its directories and files in place
(`performAll_settled`) and the same headers with the same stamps, as long as the first run has not
touched any of them (`Finished.candidates_eq`), so it visits nothing, writes nothing and stores the
same blob (`run_again`). A header that can only be reached through a directory which the first run
has made is new to the second one (`rerun_visits_uncovered_header`).
-/

namespace HeaderReflect

/-! ## Actions that find their work done -/

namespace Action

/-- An action that would change nothing. -/
def Settled (fs : FileSystem) : Action → Prop
  | .makeDirectory path => fs.ensureDirectory path = .ok fs
  | .warn _ => True
  | .write path text => fs.read path = .ok (Text.utf8 text)
  | .giveUp _ => False
  | .saveCache _ => False

def isWrite : Action → Bool
  | .write .. => true
  | _ => false

end Action

namespace Generator

theorem perform_settled {g : Generator} {p : Progress} {a : Action}
    (h : a.Settled p.world.files) :
    ∃ q, g.perform p a = (q, none) ∧ q.world = p.world ∧ q.written = p.written ∧
      q.unchanged = p.unchanged + if a.isWrite then 1 else 0 := by
  cases a with
  | makeDirectory path =>
    have hdir : p.world.files.ensureDirectory path = .ok p.world.files := h
    refine ⟨p, ?_, rfl, rfl, rfl⟩
    simp only [perform, hdir]
  | warn warning => exact ⟨_, rfl, rfl, rfl, rfl⟩
  | write path text =>
    have hsame := FileSystem.writeIfChanged_of_read h
    refine ⟨{ p with unchanged := p.unchanged + 1 }, ?_, rfl, rfl, rfl⟩
    simp only [perform, hsame]
  | giveUp e => exact h.elim
  | saveCache c => exact h.elim

/-- **Actions that find their work done change nothing.** -/
theorem performAll_settled {g : Generator} {as : List Action} {p : Progress}
    (h : ∀ a ∈ as, a.Settled p.world.files) :
    ∃ q, g.performAll p as = (q, none) ∧ q.world = p.world ∧ q.written = p.written ∧
      q.unchanged = p.unchanged + as.countP (·.isWrite) := by
  induction as generalizing p with
  | nil => exact ⟨p, rfl, rfl, rfl, rfl⟩
  | cons a rest ih =>
    obtain ⟨r, hperform, hworld, hwritten, hunchanged⟩ :=
      perform_settled (g := g) (h a (List.mem_cons_self ..))
    have hrest : ∀ b ∈ rest, b.Settled r.world.files := by
      intro b hb
      rw [hworld]
      exact h b (List.mem_cons_of_mem _ hb)
    obtain ⟨q, hall, hsame, hnone, hcount⟩ := ih hrest
    refine ⟨q, ?_, hsame.trans hworld, hnone.trans hwritten, ?_⟩
    · simp only [performAll, hperform, hall]
    · rw [hcount, hunchanged, List.countP_cons]
      omega

theorem warn_of_mem_headerActions {g : Generator} {owners : List (String × String)}
    {entries : Entries} {a : Action} (h : a ∈ g.headerActions false owners entries) :
    ∃ warning, a = .warn warning := by
  induction entries generalizing owners with
  | nil => cases h
  | cons e rest ih =>
    obtain ⟨key, entry⟩ := e
    simp only [headerActions, if_neg Bool.false_ne_true, List.append_nil, List.mem_append] at h
    rcases h with htaken | hrest
    · unfold warnIfTaken at htaken
      split at htaken
      · exact ⟨_, List.mem_singleton.mp htaken⟩
      · cases htaken
    · exact ih hrest

/-- Where the directories are there and the files that speak for all headers hold their texts, a run
without changes has nothing to do. -/
theorem settled_outputActions {g : Generator} {entries : Entries} {all : RenderedAggregates}
    {fs : FileSystem} (hrefl : fs.ensureDirectory g.config.reflOutputDir = .ok fs)
    (hbinding : fs.ensureDirectory g.config.bindingOutputDir = .ok fs)
    (hall : renderAggregates g.renderer (g.identifiers entries) = .ok all)
    (hholds : g.HoldsAggregates all fs) :
    ∀ a ∈ g.outputActions false entries, a.Settled fs := by
  intro a ha
  simp only [outputActions, List.mem_append, List.mem_cons, List.not_mem_nil, or_false] at ha
  rcases ha with ((rfl | rfl) | hheader) | haggregate
  · exact hrefl
  · exact hbinding
  · obtain ⟨warning, rfl⟩ := warn_of_mem_headerActions hheader
    trivial
  · rw [aggregateActions_eq hall] at haggregate
    obtain ⟨f, hf, rfl⟩ := List.mem_map.mp haggregate
    exact hholds f hf

theorem countP_outputActions {g : Generator} {entries : Entries} {all : RenderedAggregates}
    (hall : renderAggregates g.renderer (g.identifiers entries) = .ok all) :
    (g.outputActions false entries).countP (·.isWrite) = 4 := by
  have hheaders : (g.headerActions false [] (emitted entries)).countP (·.isWrite) = 0 := by
    rw [List.countP_eq_zero]
    intro a ha
    obtain ⟨warning, rfl⟩ := warn_of_mem_headerActions ha
    exact Bool.false_ne_true
  rw [outputActions, List.countP_append, List.countP_append, hheaders, aggregateActions_eq hall]
  rfl

/-- A run that finds its work done leaves the world as its start and its blob leave it. -/
theorem run_of_settled {g : Generator} {w v x : World} {files : List String}
    {warnings : List Warning} {r : Refresh} (hrefreshed : g.Refreshed w files v warnings r none)
    (hsettled : ∀ a ∈ g.outputActions r.report.changed r.entries, a.Settled w.files)
    (hsave : g.cachePlace.save cacheKey (Blob.ofCache ⟨g.fingerprint, r.entries⟩) v =
      (.ok (), x)) :
    (g.run w files).result = .ok
        { visited := r.report.visited, reused := r.report.reused, failed := r.report.failed,
          dropped := r.report.dropped,
          unchanged := (g.outputActions r.report.changed r.entries).countP (·.isWrite) } ∧
      (g.run w files).world = x ∧ (g.run w files).parsed = r.visited.filter (g.parses w.files) := by
  have hbegun : ∀ a ∈ g.outputActions r.report.changed r.entries,
      a.Settled (begun w files v warnings r).world.files := by
    intro a ha
    have hfiles : (begun w files v warnings r).world.files = w.files := hrefreshed.files_eq
    rw [hfiles]
    exact hsettled a ha
  obtain ⟨q, hperformed, hworld, hwritten, hunchanged⟩ := performAll_settled hbegun
  have hsame : q.world = v := hworld
  have hnone : q.written = 0 := hwritten
  have hcount : q.unchanged = _ := hunchanged.trans (Nat.zero_add _)
  rw [run_of_refreshed hrefreshed, performAll_actions hperformed]
  simp only [perform, hsame, hsave, concluded, hnone, hcount]
  trivial

end Generator

/-! ## The same headers -/

theorem FileSystem.toOption_stat_eq_none {fs : FileSystem} {path : String}
    (hfile : fs.isFile path = false) (hdir : fs.isDirectory path = false) :
    (fs.stat path).toOption = none := by
  unfold isFile at hfile
  unfold isDirectory at hdir
  cases hstat : fs.stat path with
  | error e => rfl
  | ok e =>
    rw [hstat] at hfile hdir
    simp_all

namespace Generator

section Finished

variable {g : Generator} {w v : World} {files : List String} {s : RunSummary}
  {warnings : List Warning} {r : Refresh} {q : Progress}

theorem Finished.keepsDirectories (h : g.Finished w files s v warnings r q) :
    q.world.files.KeepsDirectories (g.run w files).world.files := by
  have hkeep := g.cachePlace.keepsDirectories_save
    (Blob.ofCache ⟨g.fingerprint, r.entries⟩) q.world
  rwa [h.saved] at hkeep

/-- A run touches no files but those it writes. -/
theorem Finished.spares (h : g.Finished w files s v warnings r q) :
    w.files.Spares (g.run w files).world.files (g.written w files) := by
  have hwritten : g.written w files = g.writtenBy (begun w files v warnings r)
      (g.outputActions r.report.changed r.entries) ++
        (g.cachePlace.location? w.files.working).toList := by
    obtain ⟨cache, hstart, hrefresh⟩ := h.refreshed
    simp only [written, hstart, hrefresh]
  have hacted := spares_performAll (fun a => isOutput_outputActions) h.performed
  have hkeep := keepsDirectories_performAll (fun a => isOutput_outputActions) h.performed
  have hsaved := CachePlace.spares_save h.saved
  have hfiles : (begun w files v warnings r).world.files = w.files := h.refreshed.files_eq
  rw [hfiles] at hacted hkeep
  rw [hkeep.working] at hsaved
  rw [hwritten]
  exact hacted.trans hsaved h.keepsDirectories

/-- Headers that a run neither writes nor uncovers keep their stamps. -/
theorem Finished.candidates_eq (h : g.Finished w files s v warnings r q)
    (hdirs : ∀ path ∈ files, (g.run w files).world.files.isDirectory path = false)
    (hwritten : ∀ path ∈ files, Path.location w.files.working path ∉ g.written w files)
    (hcovered : ∀ path ∈ files, (g.run w files).world.files.isFile path = true →
      w.files.isFile path = true) :
    candidates (g.run w files).world files = candidates w files := by
  have hkeep := (g.lasts_run w files).directories
  rw [Generator.candidates_eq, Generator.candidates_eq]
  apply List.filterMap_congr
  intro path hpath
  have hsame : ((g.run w files).world.files.stat path).toOption =
      (w.files.stat path).toOption := by
    cases hfile : w.files.isFile path with
    | true =>
      rw [FileSystem.stat_of_spares h.spares hkeep hfile (hdirs path hpath) (hwritten path hpath)]
    | false =>
      have hnodir : w.files.isDirectory path = false := by
        apply Bool.eq_false_iff.mpr
        intro hdir
        have hlater := hkeep.isDirectory hdir
        rw [hdirs path hpath] at hlater
        cases hlater
      have hnofile : (g.run w files).world.files.isFile path = false := by
        apply Bool.eq_false_iff.mpr
        intro hlater
        rw [hcovered path hpath hlater] at hfile
        cases hfile
      rw [FileSystem.toOption_stat_eq_none hfile hnodir,
        FileSystem.toOption_stat_eq_none hnofile (hdirs path hpath)]
  rw [hsame]

/-- After a run there is nothing to do for one that finds nothing changed. -/
theorem Finished.settled (h : g.Finished w files s v warnings r q) :
    ∃ all, renderAggregates g.renderer (g.identifiers r.entries) = .ok all ∧
      ∀ a ∈ g.outputActions false r.entries, a.Settled (g.run w files).world.files := by
  obtain ⟨all, hall⟩ := exists_rendered h.performed
  have hout : ∀ a ∈ g.outputActions r.report.changed r.entries, a.IsOutput g :=
    fun a => isOutput_outputActions
  have hdir {path : String}
      (hmem : .makeDirectory path ∈ g.outputActions r.report.changed r.entries) :
      (g.run w files).world.files.ensureDirectory path = .ok (g.run w files).world.files :=
    FileSystem.ensureDirectory_again (ensureDirectory_of_performAll hout h.performed hmem)
      h.keepsDirectories
  refine ⟨all, hall, settled_outputActions (hdir ?_) (hdir ?_) hall
    (holdsAggregates_of_saved h.performed h.saved hall)⟩
  · simp [outputActions]
  · simp [outputActions]

end Finished

end Generator

/-! ## The second run -/

/-- A cache whose blob can be read back: its nesting is within the limit, and the blob is addressable
by words of 64 bits. -/
structure Cache.Readable (c : Cache) : Prop where
  nesting : c.nesting ≤ Blob.nestingLimit
  short : (Blob.ofCache c).length < UInt64.size

theorem Cache.startFrom_ofCache {c : Cache} (hs : c.entries.Sorted) (h : c.Readable) :
    startFrom c.fingerprint (.ok (Blob.ofCache c)) = .ok (c, []) := by
  have hdecode := Blob.decode_ofCache_append hs h.short []
  rw [List.append_nil, if_pos h.nesting] at hdecode
  have hadopt : c.adopt c.fingerprint = c := if_pos rfl
  rw [startFrom, ofLoaded_of_ne_nil c.ofCache_ne_nil, hdecode]
  simp only [Except.mapError, Except.map, hadopt]

namespace Generator

theorem headerActions_reading (g : Generator) (cursors : CursorSource) (force changed : Bool)
    (owners : List (String × String)) (entries : Entries) :
    (g.reading cursors force).headerActions changed owners entries =
      g.headerActions changed owners entries := by
  induction entries generalizing owners with
  | nil => rfl
  | cons e rest ih =>
    obtain ⟨key, entry⟩ := e
    simp only [headerActions, ih]
    rfl

/-- What is to be done does not depend on what would be visited. -/
theorem outputActions_reading (g : Generator) (cursors : CursorSource) (force changed : Bool)
    (entries : Entries) :
    (g.reading cursors force).outputActions changed entries = g.outputActions changed entries := by
  rw [outputActions, headerActions_reading]
  rfl

section Finished

variable {g : Generator} {w v : World} {files : List String} {s : RunSummary}
  {warnings : List Warning} {r : Refresh} {q : Progress}

/-- The second run starts from the entries of the first one. -/
theorem Finished.startCache_again (h : g.Finished w files s v warnings r q)
    (hreadable : (⟨g.fingerprint, r.entries⟩ : Cache).Readable)
    (hloads : g.cachePlace = .inMemory → w.memory.failLoads = false) (cursors : CursorSource) :
    (g.reading cursors false).startCache (g.run w files).world =
      (.ok (⟨g.fingerprint, r.entries⟩, []),
        (g.cachePlace.load cacheKey (g.run w files).world).2) := by
  have hload : (g.cachePlace.load cacheKey (g.run w files).world).1 =
      .ok (Blob.ofCache ⟨g.fingerprint, r.entries⟩) := by
    apply CachePlace.load_of_save h.saved
    intro hplace
    exact (g.lasts_run w files).loads.trans (hloads hplace)
  obtain ⟨cache, -, hrefresh⟩ := h.refreshed
  have hfrom := Cache.startFrom_ofCache (Cache.sorted_of_refresh hrefresh) hreadable
  rw [← hload] at hfrom
  exact congrArg (·, _) hfrom

/-- The second run carries all entries over. -/
theorem Finished.refreshed_again (h : g.Finished w files s v warnings r q)
    (hreadable : (⟨g.fingerprint, r.entries⟩ : Cache).Readable)
    (hloads : g.cachePlace = .inMemory → w.memory.failLoads = false)
    (hsame : candidates (g.run w files).world files = candidates w files)
    (cursors : CursorSource) :
    ∃ t, (g.reading cursors false).Refreshed (g.run w files).world files
        (g.cachePlace.load cacheKey (g.run w files).world).2 [] t none ∧
      t.entries = r.entries ∧ t.visited = [] ∧
      t.report = { reused := (Candidate.keys (candidates w files)).toFinset.card } := by
  have hstart := h.startCache_again hreadable hloads cursors
  obtain ⟨cache, -, hrefresh⟩ := h.refreshed
  obtain ⟨t, hagain, hrest⟩ := @Cache.refresh_again ⟨g.fingerprint, r.entries⟩
    ((g.reading cursors false).visit (g.run w files).world.files) (candidates w files) _ _ r
    (Cache.tally_of_refresh hrefresh) (Cache.sorted_of_refresh hrefresh) rfl
  rw [← hsame] at hagain
  exact ⟨t, ⟨_, hstart, hagain⟩, hrest⟩

end Finished

/-- **A second run is idle.** It follows a run that succeeded and is not forced; whatever it would be
told of the headers, it does not ask. No listed path may be a directory, written by the first run, or
a file that this run has uncovered, and the blob has to be readable. -/
theorem run_again {g : Generator} {w : World} {files : List String} {s : RunSummary}
    (hrun : (g.run w files).result = .ok s)
    (hdirs : ∀ path ∈ files, (g.run w files).world.files.isDirectory path = false)
    (hwritten : ∀ path ∈ files, Path.location w.files.working path ∉ g.written w files)
    (hcovered : ∀ path ∈ files, (g.run w files).world.files.isFile path = true →
      w.files.isFile path = true)
    (hreadable : ∀ v warnings r, g.Refreshed w files v warnings r none →
      (⟨g.fingerprint, r.entries⟩ : Cache).Readable)
    (hloads : g.cachePlace = .inMemory → w.memory.failLoads = false) (cursors : CursorSource) :
    ∃ again, again = (g.reading cursors false).run (g.run w files).world files ∧
      again.result = .ok
        { reused := (Candidate.keys (candidates (g.run w files).world files)).toFinset.card,
          unchanged := 4 } ∧
      again.parsed = [] ∧
      (∀ l, again.world.files.content? l = (g.run w files).world.files.content? l) ∧
      g.cachePlace.blob? again.world = g.cachePlace.blob? (g.run w files).world := by
  obtain ⟨v, warnings, r, q, hfinished⟩ := exists_finished hrun
  have hsame := hfinished.candidates_eq hdirs hwritten hcovered
  obtain ⟨t, hrefreshed, hentries, hvisited, hreport⟩ := hfinished.refreshed_again
    (hreadable v warnings r hfinished.refreshed) hloads hsame cursors
  obtain ⟨all, hall, hsettled⟩ := hfinished.settled
  have hactions : (g.reading cursors false).outputActions t.report.changed t.entries =
      g.outputActions false r.entries := by
    rw [hreport, hentries, outputActions_reading]
    rfl
  have hfiles := hrefreshed.files_eq
  obtain ⟨x, hsave, hcontent⟩ :=
    CachePlace.save_again hfinished.saved hfiles hrefreshed.lasts.saves
  rw [← hentries] at hsave
  obtain ⟨hresult, hworld, hparsed⟩ :=
    run_of_settled hrefreshed (hactions ▸ hsettled) hsave
  refine ⟨_, rfl, ?_, ?_, fun l => ?_, ?_⟩
  · rw [hresult, hactions, countP_outputActions hall, hreport, hsame]
  · rw [hparsed, hvisited]
    rfl
  · rw [hworld, hcontent, hfiles]
  · rw [hworld, CachePlace.blob?_of_save hsave, hentries, CachePlace.blob?_of_save hfinished.saved]

/-- Two headers that stay as they are. -/
theorem run_again_first :
    ∃ again, again = (Sample.generator.reading Sample.cursors false).run
        (Sample.generator.run { files := Sample.headers 2 } Sample.paths).world Sample.paths ∧
      again.result = .ok { reused := 2, unchanged := 4 } ∧ again.parsed = [] := by
  obtain ⟨hdirs, hwritten, hcovered, hcount⟩ :
      (∀ path ∈ Sample.paths, (Sample.generator.run { files := Sample.headers 2 }
        Sample.paths).world.files.isDirectory path = false) ∧
      (∀ path ∈ Sample.paths, Path.location (Sample.headers 2).working path ∉
        Sample.generator.written { files := Sample.headers 2 } Sample.paths) ∧
      (∀ path ∈ Sample.paths, (Sample.headers 2).isFile path = true) ∧
      (Candidate.keys (candidates (Sample.generator.run { files := Sample.headers 2 }
        Sample.paths).world Sample.paths)).toFinset.card = 2 := by
    decide +kernel
  have hentries : (((Sample.generator.startCache { files := Sample.headers 2 }).1.toOption.map
      fun start => start.1.refresh (Sample.generator.visit (Sample.headers 2))
        (candidates { files := Sample.headers 2 } Sample.paths)).all fun refreshed =>
          (⟨Sample.generator.fingerprint, refreshed.1.entries⟩ : Cache).nesting ≤
              Blob.nestingLimit ∧
            (Blob.ofCache ⟨Sample.generator.fingerprint, refreshed.1.entries⟩).length <
              UInt64.size) = true := by
    decide +kernel
  have hreadable : ∀ v warnings r,
      Sample.generator.Refreshed { files := Sample.headers 2 } Sample.paths v warnings r none →
        (⟨Sample.generator.fingerprint, r.entries⟩ : Cache).Readable := by
    rintro v warnings r ⟨cache, hstart, hrefresh⟩
    rw [hstart] at hentries
    simp only [Except.toOption, Option.map_some, hrefresh, Option.all_some,
      decide_eq_true_eq] at hentries
    exact ⟨hentries.1, hentries.2⟩
  obtain ⟨again, hagain, hresult, hparsed, -⟩ := run_again Sample.run_empty hdirs hwritten
    (fun path hpath _ => hcovered path hpath) hreadable (fun _ => rfl) Sample.cursors
  rw [hcount] at hresult
  exact ⟨again, hagain, hresult, hparsed⟩

end Generator

/-! ## A header that a run uncovers -/

/-- A header listed by a way through the output directory, which is not there before the first run. It
is neither a directory nor written, the blob is read back, and yet the second run visits it. -/
theorem rerun_visits_uncovered_header :
    ∃ first again,
      first = Sample.generator.run { files := Sample.headers 2 } ["/refl/../a.h"] ∧
      again = Sample.generator.run first.world ["/refl/../a.h"] ∧
      first.result = .ok { written := 4 } ∧
      first.world.files.isDirectory "/refl/../a.h" = false ∧
      Path.location (Sample.headers 2).working "/refl/../a.h" ∉
        Sample.generator.written { files := Sample.headers 2 } ["/refl/../a.h"] ∧
      again.result = .ok { visited := 1, written := 6 } ∧
      again.parsed = ["/refl/../a.h"] ∧ again.warnings = [] := by
  refine ⟨_, _, rfl, rfl, ?_⟩
  decide +kernel

end HeaderReflect
