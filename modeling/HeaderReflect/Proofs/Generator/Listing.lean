import HeaderReflect.Proofs.Cache.Tally
import HeaderReflect.Proofs.Generator.History
import HeaderReflect.Proofs.Generator.Outputs

/-!
The order in which headers are listed. It decides in which order they are visited, but the entries
are sorted by key and the actions follow the entries, so all that the order can change is what is
warned of and which of several failures is reported (`run_perm`).
-/

namespace HeaderReflect

/-! ## Candidates -/

namespace Generator

theorem candidates_perm {files others : List String} (h : files.Perm others) (w : World) :
    (candidates w files).Perm (candidates w others) := by
  rw [candidates_eq, candidates_eq]
  exact h.filterMap _

theorem paths_candidates (w : World) (files : List String) :
    ((candidates w files).map (·.path)).Sublist files := by
  rw [candidates_eq]
  induction files with
  | nil => exact .slnil
  | cons path rest ih =>
    rw [List.filterMap_cons]
    cases w.files.stat path with
    | error e => exact ih.cons _
    | ok e => exact ih.cons_cons _

theorem nodup_keys_candidates {files : List String} (h : (files.map Path.key).Nodup) (w : World) :
    (Candidate.keys (candidates w files)).Nodup := by
  have hkeys : Candidate.keys (candidates w files) =
      ((candidates w files).map (·.path)).map Path.key := by
    rw [List.map_map]
    rfl
  rw [hkeys]
  exact h.sublist ((paths_candidates w files).map _)

/-! ## Actions -/

end Generator

/-- How far the actions have come, whatever was warned of. -/
def Progress.quiet (p : Progress) : Progress := { p with warnings := [] }

theorem Progress.quiet_eq_iff {p q : Progress} :
    p.quiet = q.quiet ↔ p.world = q.world ∧ p.written = q.written ∧ p.unchanged = q.unchanged := by
  simp [quiet]

namespace Generator

/-- What an action does is independent of the warnings before. -/
theorem perform_quiet (g : Generator) (p : Progress) (a : Action) :
    (g.perform p a).1.quiet = (g.perform p.quiet a).1.quiet ∧
      (g.perform p a).2 = (g.perform p.quiet a).2 := by
  cases a with
  | makeDirectory path =>
    simp only [perform, Progress.quiet]
    split <;> exact ⟨rfl, rfl⟩
  | warn warning => exact ⟨rfl, rfl⟩
  | write path text =>
    simp only [perform, Progress.quiet]
    split <;> exact ⟨rfl, rfl⟩
  | giveUp e => exact ⟨rfl, rfl⟩
  | saveCache c =>
    simp only [perform, Progress.quiet]
    split <;> exact ⟨rfl, rfl⟩

theorem performAll_congr (g : Generator) (as : List Action) {p q : Progress}
    (h : p.quiet = q.quiet) :
    (g.performAll p as).1.quiet = (g.performAll q as).1.quiet ∧
      (g.performAll p as).2 = (g.performAll q as).2 := by
  induction as generalizing p q with
  | nil => exact ⟨h, rfl⟩
  | cons a rest ih =>
    obtain ⟨hp, hpfails⟩ := g.perform_quiet p a
    obtain ⟨hq, hqfails⟩ := g.perform_quiet q a
    have hsame : (g.perform p a).1.quiet = (g.perform q a).1.quiet := by rw [hp, hq, h]
    have hfails : (g.perform p a).2 = (g.perform q a).2 := by rw [hpfails, hqfails, h]
    unfold performAll
    cases hperform : g.perform p a with
    | mk r failure =>
      cases hother : g.perform q a with
      | mk s other =>
        rw [hperform, hother] at hsame hfails
        obtain rfl : failure = other := hfails
        cases failure with
        | none => exact ih hsame
        | some e => exact ⟨hsame, rfl⟩

/-! ## Runs -/

/-- Both fail, or both succeed with the same summary. -/
def SameResult (first second : Except RunError RunSummary) : Prop :=
  (∃ e f, first = .error e ∧ second = .error f) ∨ ∃ s, first = .ok s ∧ second = .ok s

theorem sameResult_concluded {performed other : Progress × Option RunError}
    (h : performed.1.quiet = other.1.quiet) (hfails : performed.2 = other.2)
    (parsed more : List String) (report : RefreshReport) :
    (concluded parsed report performed).world = (concluded more report other).world ∧
      SameResult (concluded parsed report performed).result (concluded more report other).result := by
  obtain ⟨p, failure⟩ := performed
  obtain ⟨q, second⟩ := other
  obtain rfl : failure = second := hfails
  obtain ⟨hworld, hwritten, hunchanged⟩ :
      p.world = q.world ∧ p.written = q.written ∧ p.unchanged = q.unchanged :=
    Progress.quiet_eq_iff.mp h
  refine ⟨hworld, ?_⟩
  cases failure with
  | some e => exact .inl ⟨e, e, rfl, rfl⟩
  | none =>
    refine .inr ⟨_, rfl, ?_⟩
    simp only [concluded, hwritten, hunchanged]

theorem sameResult_run {g : Generator} {files others : List String} (hperm : files.Perm others)
    (hkeys : (files.map Path.key).Nodup) (w : World) :
    (g.run w files).world = (g.run w others).world ∧
      SameResult (g.run w files).result (g.run w others).result := by
  cases hstart : g.startCache w with
  | mk start v =>
    cases start with
    | error e =>
      rw [run_of_unloaded hstart, run_of_unloaded hstart]
      exact ⟨rfl, .inl ⟨_, _, rfl, rfl⟩⟩
    | ok started =>
      obtain ⟨cache, warnings⟩ := started
      obtain ⟨hiff, hsame⟩ := @Cache.refresh_perm cache (g.visit w.files) _ _
        (candidates_perm hperm w) (nodup_keys_candidates hkeys w)
      cases hfirst : cache.refresh (g.visit w.files) (candidates w files) with
      | mk r fatal =>
        cases hsecond : cache.refresh (g.visit w.files) (candidates w others) with
        | mk s other =>
          rw [hfirst, hsecond] at hiff
          cases fatal with
          | some e =>
            cases other with
            | none => cases hiff.mpr rfl
            | some f =>
              rw [run_of_conflict ⟨cache, hstart, hfirst⟩, run_of_conflict ⟨cache, hstart, hsecond⟩]
              exact ⟨rfl, .inl ⟨_, _, rfl, rfl⟩⟩
          | none =>
            obtain rfl : other = none := hiff.mp rfl
            obtain ⟨hentries, hreport⟩ := hsame r s hfirst hsecond
            rw [run_of_refreshed ⟨cache, hstart, hfirst⟩, run_of_refreshed ⟨cache, hstart, hsecond⟩,
              hentries, hreport]
            have hbegun : (begun w files v warnings r).quiet = (begun w others v warnings s).quiet :=
              rfl
            obtain ⟨hquiet, hfails⟩ :=
              g.performAll_congr (g.actions s.report.changed s.entries) hbegun
            exact sameResult_concluded hquiet hfails ..

/-- **The order in which headers are listed is irrelevant.** With different keys, both runs leave the
same world. Either both fail, or both give the same summary; then the entries are stored in the order
of their keys, and the files that speak for all headers list them in that order. -/
theorem run_perm {g : Generator} {files others : List String} (hperm : files.Perm others)
    (hkeys : (files.map Path.key).Nodup) (w : World) :
    (g.run w files).world = (g.run w others).world ∧
      ((∃ e f, (g.run w files).result = .error e ∧ (g.run w others).result = .error f) ∨
        ∃ s entries all, (g.run w files).result = .ok s ∧ (g.run w others).result = .ok s ∧
          entries.Sorted ∧
          g.cachePlace.blob? (g.run w files).world = some (Blob.ofCache ⟨g.fingerprint, entries⟩) ∧
          renderAggregates g.renderer (g.identifiers entries) = .ok all ∧
          g.HoldsAggregates all (g.run w files).world.files) := by
  obtain ⟨hworld, hfail | ⟨s, hfirst, hsecond⟩⟩ := sameResult_run hperm hkeys w
  · exact ⟨hworld, .inl hfail⟩
  · obtain ⟨v, warnings, r, q, hfinished⟩ := exists_finished hfirst
    obtain ⟨all, hall⟩ := exists_rendered hfinished.performed
    obtain ⟨cache, -, hrefresh⟩ := hfinished.refreshed
    exact ⟨hworld, .inr ⟨s, r.entries, all, hfirst, hsecond, Cache.sorted_of_refresh hrefresh,
      CachePlace.blob?_of_save hfinished.saved, hall,
      holdsAggregates_of_saved hfinished.performed hfinished.saved hall⟩⟩

/-- The two headers, one of them changed since the last run, in the other order. -/
theorem run_perm_touched :
    (Sample.generator.run Sample.touched ["b.h", "/a.h"]).result =
        .ok { visited := 1, reused := 1, written := 8 } ∧
      (Sample.generator.run Sample.touched ["b.h", "/a.h"]).world =
        (Sample.generator.run Sample.touched Sample.paths).world := by
  have hperm : Sample.paths.Perm ["b.h", "/a.h"] := .swap _ _ _
  have hkeys : (Sample.paths.map Path.key).Nodup := by decide
  obtain ⟨hworld, hresult⟩ := run_perm (g := Sample.generator) hperm hkeys Sample.touched
  rw [Sample.run_touched] at hresult
  rcases hresult with ⟨e, f, hfail, -⟩ | ⟨s, entries, all, hfirst, hsecond, -⟩
  · cases hfail
  · cases hfirst
    exact ⟨hsecond, hworld.symm⟩

end Generator

end HeaderReflect
