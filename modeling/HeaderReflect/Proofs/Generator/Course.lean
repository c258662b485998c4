import HeaderReflect.Proofs.Generator.Effects

/-!
The course of a run. A run can end in five ways: the cache cannot be loaded, a visit fails fatally,
an action fails, the cache cannot be saved, or all is done. `course_run` says once what has happened
by then, so that a statement about runs is shown for one way to end after the other.
-/

namespace HeaderReflect

theorem RefreshReport.changed_iff (report : RefreshReport) :
    report.changed = true ↔ 0 < report.visited ∨ 0 < report.dropped := by
  rw [changed, Bool.or_eq_true, decide_eq_true_iff, decide_eq_true_iff]

namespace Generator

/-- All actions of a run but the last, which saves the cache. -/
def outputActions (g : Generator) (changed : Bool) (entries : Entries) : List Action :=
  [.makeDirectory g.config.reflOutputDir, .makeDirectory g.config.bindingOutputDir]
    ++ g.headerActions changed [] (emitted entries)
    ++ g.aggregateActions (g.identifiers entries)

theorem actions_eq (g : Generator) (changed : Bool) (entries : Entries) :
    g.actions changed entries =
      g.outputActions changed entries ++ [.saveCache { fingerprint := g.fingerprint, entries }] :=
  rfl

theorem startCache_spec (g : Generator) (w : World) :
    (g.startCache w).2.files = w.files ∧
      g.cachePlace.blob? (g.startCache w).2 = g.cachePlace.blob? w := by
  obtain ⟨hfiles, hblob, -⟩ := g.cachePlace.load_spec w
  unfold startCache
  split_ifs
  · exact ⟨rfl, rfl⟩
  · exact ⟨hfiles, hblob⟩

/-- The headers of a run that are there. -/
def candidates (w : World) (files : List String) : List Candidate := (stampAll w.files files).1

theorem candidates_eq (w : World) (files : List String) :
    candidates w files = files.filterMap fun path =>
      (w.files.stat path).toOption.map fun e => { path, stamp := Stamp.ofTime e.changed } := by
  induction files with
  | nil => rfl
  | cons path rest ih =>
    rw [List.filterMap_cons, ← ih, candidates, stampAll]
    cases w.files.stat path <;> rfl

/-- Where the actions of a run start: in the world that loading has left, with all warnings so far. -/
def begun (w : World) (files : List String) (v : World) (warnings : List Warning) (r : Refresh) :
    Progress where
  world := v
  warnings := warnings ++ (stampAll w.files files).2 ++ r.warnings

/-- A run has come to the end of its refresh, with this failure. -/
def Refreshed (g : Generator) (w : World) (files : List String) (v : World)
    (warnings : List Warning) (r : Refresh) (fatal : Option VisitError) : Prop :=
  ∃ cache, g.startCache w = (.ok (cache, warnings), v) ∧
    cache.refresh (g.visit w.files) (candidates w files) = (r, fatal)

theorem Refreshed.files_eq {g : Generator} {w v : World} {files : List String}
    {warnings : List Warning} {r : Refresh} {fatal : Option VisitError}
    (h : g.Refreshed w files v warnings r fatal) : v.files = w.files := by
  obtain ⟨cache, hstart, -⟩ := h
  have hspec := (g.startCache_spec w).1
  rwa [hstart] at hspec

theorem Refreshed.blob?_eq {g : Generator} {w v : World} {files : List String}
    {warnings : List Warning} {r : Refresh} {fatal : Option VisitError}
    (h : g.Refreshed w files v warnings r fatal) :
    g.cachePlace.blob? v = g.cachePlace.blob? w := by
  obtain ⟨cache, hstart, -⟩ := h
  have hspec := (g.startCache_spec w).2
  rwa [hstart] at hspec

/-- What a run tells that has performed its actions. -/
def concluded (parsed : List String) (report : RefreshReport)
    (performed : Progress × Option RunError) : RunOutcome where
  result :=
    match performed.2 with
    | some e => .error e
    | none =>
      .ok { visited := report.visited, reused := report.reused, failed := report.failed,
            dropped := report.dropped, written := performed.1.written,
            unchanged := performed.1.unchanged }
  world := performed.1.world
  parsed
  warnings := performed.1.warnings

/-! ## The three parts of a run -/

theorem run_of_unloaded {g : Generator} {w v : World} {e : CacheError}
    (hstart : g.startCache w = (.error e, v)) (files : List String) :
    g.run w files = { result := .error (.cache e), world := v } := by
  unfold run
  rw [hstart]

theorem run_of_conflict {g : Generator} {w v : World} {files : List String}
    {warnings : List Warning} {r : Refresh} {e : VisitError}
    (h : g.Refreshed w files v warnings r (some e)) :
    g.run w files =
      { result := .error (.ofVisit e), world := v, parsed := r.visited.filter (g.parses w.files),
        warnings := (begun w files v warnings r).warnings } := by
  have hfiles := h.files_eq
  obtain ⟨cache, hstart, hrefresh⟩ := h
  rw [candidates] at hrefresh
  unfold run
  rw [hstart]
  simp only [runFrom, hfiles, hrefresh]
  rfl

theorem run_of_refreshed {g : Generator} {w v : World} {files : List String}
    {warnings : List Warning} {r : Refresh} (h : g.Refreshed w files v warnings r none) :
    g.run w files = concluded (r.visited.filter (g.parses w.files)) r.report
      (g.performAll (begun w files v warnings r) (g.actions r.report.changed r.entries)) := by
  have hfiles := h.files_eq
  obtain ⟨cache, hstart, hrefresh⟩ := h
  rw [candidates] at hrefresh
  unfold run
  rw [hstart]
  simp only [runFrom, hfiles, hrefresh]
  rfl

/-- The cache is saved if all other actions succeed. -/
theorem performAll_actions {g : Generator} {changed : Bool} {entries : Entries} {p q : Progress}
    (h : g.performAll p (g.outputActions changed entries) = (q, none)) :
    g.performAll p (g.actions changed entries) =
      g.perform q (.saveCache { fingerprint := g.fingerprint, entries }) := by
  rw [actions_eq, performAll_append, h]
  simp only [performAll]
  split <;> simp_all

theorem performAll_actions_failed {g : Generator} {changed : Bool} {entries : Entries}
    {p q : Progress} {e : RunError}
    (h : g.performAll p (g.outputActions changed entries) = (q, some e)) :
    g.performAll p (g.actions changed entries) = (q, some e) := by
  rw [actions_eq, performAll_append, h]

/-! ## The ways to end -/

/-- What a run comes to. -/
inductive Course (g : Generator) (w : World) (files : List String) : RunOutcome → Prop where
  | unloaded {e : CacheError} {v : World} (hstart : g.startCache w = (.error e, v)) :
      Course g w files { result := .error (.cache e), world := v }
  | conflicting {v : World} {warnings : List Warning} {r : Refresh} {e : VisitError}
      (hrefreshed : g.Refreshed w files v warnings r (some e)) :
      Course g w files
        { result := .error (.ofVisit e), world := v, parsed := r.visited.filter (g.parses w.files),
          warnings := (begun w files v warnings r).warnings }
  | stuck {v : World} {warnings : List Warning} {r : Refresh} {q : Progress} {e : RunError}
      (hrefreshed : g.Refreshed w files v warnings r none)
      (hperformed : g.performAll (begun w files v warnings r)
        (g.outputActions r.report.changed r.entries) = (q, some e)) :
      Course g w files
        { result := .error e, world := q.world, parsed := r.visited.filter (g.parses w.files),
          warnings := q.warnings }
  | unsaved {v after : World} {warnings : List Warning} {r : Refresh} {q : Progress}
      {e : CacheError} (hrefreshed : g.Refreshed w files v warnings r none)
      (hperformed : g.performAll (begun w files v warnings r)
        (g.outputActions r.report.changed r.entries) = (q, none))
      (hsave : g.cachePlace.save cacheKey (Blob.ofCache ⟨g.fingerprint, r.entries⟩) q.world =
        (.error e, after)) :
      Course g w files
        { result := .error (.cache e), world := after,
          parsed := r.visited.filter (g.parses w.files), warnings := q.warnings }
  | finished {v after : World} {warnings : List Warning} {r : Refresh} {q : Progress}
      (hrefreshed : g.Refreshed w files v warnings r none)
      (hperformed : g.performAll (begun w files v warnings r)
        (g.outputActions r.report.changed r.entries) = (q, none))
      (hsave : g.cachePlace.save cacheKey (Blob.ofCache ⟨g.fingerprint, r.entries⟩) q.world =
        (.ok (), after)) :
      Course g w files
        { result := .ok { visited := r.report.visited, reused := r.report.reused,
                          failed := r.report.failed, dropped := r.report.dropped,
                          written := q.written, unchanged := q.unchanged },
          world := after, parsed := r.visited.filter (g.parses w.files), warnings := q.warnings }

theorem course_run (g : Generator) (w : World) (files : List String) :
    g.Course w files (g.run w files) := by
  cases hstart : g.startCache w with
  | mk start v =>
    cases start with
    | error e =>
      rw [run_of_unloaded hstart]
      exact .unloaded hstart
    | ok started =>
      obtain ⟨cache, warnings⟩ := started
      cases hrefresh : cache.refresh (g.visit w.files) (candidates w files) with
      | mk r fatal =>
        have hrefreshed : g.Refreshed w files v warnings r fatal := ⟨cache, hstart, hrefresh⟩
        cases fatal with
        | some e =>
          rw [run_of_conflict hrefreshed]
          exact .conflicting hrefreshed
        | none =>
          rw [run_of_refreshed hrefreshed]
          cases hperformed : g.performAll (begun w files v warnings r)
              (g.outputActions r.report.changed r.entries) with
          | mk q failure =>
            cases failure with
            | some e =>
              rw [performAll_actions_failed hperformed]
              exact .stuck hrefreshed hperformed
            | none =>
              rw [performAll_actions hperformed]
              cases hsave : g.cachePlace.save cacheKey
                  (Blob.ofCache ⟨g.fingerprint, r.entries⟩) q.world with
              | mk saved after =>
                cases saved with
                | error e =>
                  have hcourse := Course.unsaved hrefreshed hperformed hsave
                  simpa only [perform, hsave, concluded] using hcourse
                | ok u =>
                  have hcourse := Course.finished hrefreshed hperformed hsave
                  simpa only [perform, hsave, concluded] using hcourse

/-- What a run that succeeds has gone through. -/
structure Finished (g : Generator) (w : World) (files : List String) (s : RunSummary) (v : World)
    (warnings : List Warning) (r : Refresh) (q : Progress) : Prop where
  refreshed : g.Refreshed w files v warnings r none
  performed : g.performAll (begun w files v warnings r)
    (g.outputActions r.report.changed r.entries) = (q, none)
  saved : g.cachePlace.save cacheKey (Blob.ofCache ⟨g.fingerprint, r.entries⟩) q.world =
    (.ok (), (g.run w files).world)
  warned : (g.run w files).warnings = q.warnings
  changed : r.report.changed = true ↔ 0 < s.visited ∨ 0 < s.dropped

theorem exists_finished {g : Generator} {w : World} {files : List String} {s : RunSummary}
    (h : (g.run w files).result = .ok s) :
    ∃ v warnings r q, g.Finished w files s v warnings r q := by
  have hcourse := g.course_run w files
  generalize hrun : g.run w files = outcome at hcourse h
  cases hcourse with
  | unloaded hstart => cases h
  | conflicting hrefreshed => cases h
  | stuck hrefreshed hperformed => cases h
  | unsaved hrefreshed hperformed hsave => cases h
  | @finished v after warnings r q hrefreshed hperformed hsave =>
    cases h
    exact ⟨v, warnings, r, q, hrefreshed, hperformed, by rw [hsave, hrun], by rw [hrun],
      r.report.changed_iff⟩

end Generator

end HeaderReflect
