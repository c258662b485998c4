import HeaderReflect.Proofs.Cache.Refresh
import HeaderReflect.Proofs.Generator.Course

/-!
One run as a whole. A run that succeeds has refreshed the cache, performed all of its actions and
stored the new cache (`run_ok`); one that fails leaves the blob as it was and touches no files but
those it set out to write (`run_failed`).
-/

namespace HeaderReflect.Generator

/-! ## The actions of a run -/

theorem artifactName_of_render {plan : FilePlan} {r : Renderer} {rendered : RenderedFile}
    (h : plan.render r = .ok rendered) : rendered.artifactName = plan.artifactName := by
  unfold FilePlan.render at h
  simp only [bind, Except.bind, pure, Except.pure] at h
  repeat' split at h
  all_goals cases h
  rfl

theorem isOutput_writeHeader {g : Generator} {key : String} {root : Decl} {a : Action}
    (h : a ∈ g.writeHeader (g.planEntry key root)) : a.IsOutput g := by
  unfold writeHeader at h
  split at h
  · obtain rfl := List.mem_singleton.mp h
    trivial
  · rename_i rendered hrendered
    have hname : IsOutputName rendered.artifactName := by
      rw [artifactName_of_render hrendered]
      exact isOutputName_artifactName ..
    simp only [List.mem_cons, List.not_mem_nil, or_false] at h
    rcases h with rfl | rfl
    · exact ⟨_, hname, .inl rfl⟩
    · exact ⟨_, hname, .inr rfl⟩

theorem isOutput_headerActions {g : Generator} {changed : Bool} {owners : List (String × String)}
    {entries : Entries} {a : Action} (h : a ∈ g.headerActions changed owners entries) :
    a.IsOutput g := by
  induction entries generalizing owners with
  | nil => cases h
  | cons e rest ih =>
    obtain ⟨key, entry⟩ := e
    simp only [headerActions, List.mem_append] at h
    rcases h with (h | h) | h
    · unfold warnIfTaken at h
      split at h
      · obtain rfl := List.mem_singleton.mp h
        trivial
      · cases h
    · split at h
      · exact isOutput_writeHeader h
      · cases h
    · exact ih h

theorem isOutput_aggregateActions {g : Generator} {identifiers : List String} {a : Action}
    (h : a ∈ g.aggregateActions identifiers) : a.IsOutput g := by
  unfold aggregateActions at h
  split at h
  · obtain rfl := List.mem_singleton.mp h
    trivial
  · simp only [List.mem_cons, List.not_mem_nil, or_false] at h
    rcases h with rfl | rfl | rfl | rfl
    · exact ⟨_, isOutputName_of_end (by decide) (by decide), .inl rfl⟩
    · exact ⟨_, isOutputName_of_end (by decide) (by decide), .inl rfl⟩
    · exact ⟨_, isOutputName_of_end (by decide) (by decide), .inr rfl⟩
    · exact ⟨_, isOutputName_of_end (by decide) (by decide), .inr rfl⟩

theorem isOutput_outputActions {g : Generator} {changed : Bool} {entries : Entries} {a : Action}
    (h : a ∈ g.outputActions changed entries) : a.IsOutput g := by
  simp only [outputActions, List.mem_append, List.mem_cons, List.not_mem_nil, or_false] at h
  rcases h with ((rfl | rfl) | h) | h
  · trivial
  · trivial
  · exact isOutput_headerActions h
  · exact isOutput_aggregateActions h

/-! ## Runs -/

/-- What a run that succeeds has done: its cache is refreshed and stored, all is rendered, its actions
have left what they write, and the refresh is what it reports. -/
structure Done (g : Generator) (w : World) (files : List String) (r : Refresh) (s : RunSummary)
    (after : World) : Prop where
  refreshed : ∃ cache warnings, (g.startCache w).1 = .ok (cache, warnings) ∧
    cache.refresh (g.visit w.files) (stampAll w.files files).1 = (r, none)
  blob : g.cachePlace.blob? after = some (Blob.ofCache ⟨g.fingerprint, r.entries⟩)
  rendered : ∀ e, Action.giveUp e ∉ g.outputActions r.report.changed r.entries
  working : after.files.working = w.files.working
  content : ∀ l, g.cachePlace.location? w.files.working ≠ some l →
    after.files.content? l =
      (Action.leavesAll w.files.working l (g.outputActions r.report.changed r.entries)).or
        (w.files.content? l)
  counts : s.visited = r.report.visited ∧ s.reused = r.report.reused ∧
    s.failed = r.report.failed ∧ s.dropped = r.report.dropped

/-- What a run may leave that fails or is stopped on its way. No cache is stored, and nothing is
touched but the files that were to be written, whatever they hold now. `wrote` tells whether those
of single headers are among them. -/
inductive Stopped (g : Generator) (w : World) (files : List String) : Bool → World → Prop where
  | early {after : World} (hblob : g.cachePlace.blob? after = g.cachePlace.blob? w)
      (hworking : after.files.working = w.files.working)
      (hcontent : after.files.content? = w.files.content?) : Stopped g w files false after
  | midway {cache : Cache} {warnings : List Warning} {r : Refresh} {after : World}
      (hstart : (g.startCache w).1 = .ok (cache, warnings))
      (hrefresh : cache.refresh (g.visit w.files) (stampAll w.files files).1 = (r, none))
      (hblob : g.cachePlace.blob? after = g.cachePlace.blob? w)
      (hworking : after.files.working = w.files.working)
      (hcontent : ∀ l, g.cachePlace.location? w.files.working ≠ some l →
        Action.leavesAll w.files.working l (g.outputActions r.report.changed r.entries) = none →
        after.files.content? l = w.files.content? l) :
      Stopped g w files r.report.changed after

theorem Stopped.blob {g : Generator} {w after : World} {files : List String} {wrote : Bool}
    (h : g.Stopped w files wrote after) : g.cachePlace.blob? after = g.cachePlace.blob? w := by
  cases h with
  | early hblob => exact hblob
  | midway _ _ hblob => exact hblob

theorem Stopped.working {g : Generator} {w after : World} {files : List String} {wrote : Bool}
    (h : g.Stopped w files wrote after) : after.files.working = w.files.working := by
  cases h with
  | early _ hworking => exact hworking
  | midway _ _ _ hworking => exact hworking

section Refreshed

variable {g : Generator} {w v : World} {files : List String} {warnings : List Warning} {r : Refresh}
  (hrefreshed : g.Refreshed w files v warnings r none) {as : List Action} {q : Progress}
  (has : ∀ a ∈ as, a.IsOutput g)
  (hperformed : g.performAll (begun w files v warnings r) as = (q, none))

include hrefreshed has hperformed

/-- What actions after the refresh leave, as seen from the start of the run. -/
theorem content?_performed :
    q.world.files.working = w.files.working ∧
      ∀ l, q.world.files.content? l =
        (Action.leavesAll w.files.working l as).or (w.files.content? l) := by
  obtain ⟨-, hkeep, hcontent⟩ := content?_performAll has hperformed
  rw [← hrefreshed.files_eq]
  exact ⟨hkeep.working, hcontent⟩

/-- Saving the cache after that, or failing to, touches nothing but the blob. -/
theorem content?_saved {blob : Bytes} {saved : Except CacheError Unit} {after : World}
    (hsave : g.cachePlace.save cacheKey blob q.world = (saved, after)) :
    after.files.working = w.files.working ∧
      ∀ l, g.cachePlace.location? w.files.working ≠ some l →
        after.files.content? l =
          (Action.leavesAll w.files.working l as).or (w.files.content? l) := by
  obtain ⟨hworking, hcontent⟩ := content?_performed hrefreshed has hperformed
  have hkeep := g.cachePlace.keepsDirectories_save blob q.world
  obtain ⟨-, hothers⟩ := g.cachePlace.save_spec blob q.world
  rw [hsave] at hkeep hothers
  rw [hworking] at hothers
  exact ⟨hkeep.working.trans hworking, fun l hl => (hothers l hl).trans (hcontent l)⟩

end Refreshed

/-- A run either does all of its work or fails on its way. -/
theorem run_cases (g : Generator) (w : World) (files : List String) :
    (∃ s r, (g.run w files).result = .ok s ∧ g.Done w files r s (g.run w files).world) ∨
      ∃ e wrote, (g.run w files).result = .error e ∧
        g.Stopped w files wrote (g.run w files).world := by
  have hout (r : Refresh) : ∀ a ∈ g.outputActions r.report.changed r.entries, a.IsOutput g :=
    fun a => isOutput_outputActions
  have hcourse := g.course_run w files
  generalize g.run w files = outcome at hcourse ⊢
  cases hcourse with
  | unloaded hstart =>
    obtain ⟨hfiles, hblob⟩ := g.startCache_spec w
    rw [hstart] at hfiles hblob
    exact .inr ⟨_, false, rfl, .early hblob (congrArg _ hfiles) (congrArg _ hfiles)⟩
  | conflicting hrefreshed =>
    have hfiles := hrefreshed.files_eq
    exact .inr ⟨_, false, rfl,
      .early hrefreshed.blob?_eq (congrArg _ hfiles) (congrArg _ hfiles)⟩
  | @stuck v warnings r q e hrefreshed hperformed =>
    have hblob := (blob?_performAll (hout r) hperformed g.cachePlace).trans hrefreshed.blob?_eq
    obtain ⟨done, hpart, hdone⟩ := performAll_failed (hout r) hperformed
    obtain ⟨hworking, hcontent⟩ :=
      content?_performed hrefreshed (fun a ha => hout r a (hpart.subset ha)) hdone
    obtain ⟨cache, hstart, hrefresh⟩ := hrefreshed
    refine .inr ⟨e, r.report.changed, rfl,
      .midway (by rw [hstart]) hrefresh hblob hworking fun l _ hnone => ?_⟩
    rw [hcontent l, Action.leavesAll_of_part hpart hnone, Option.none_or]
  | @unsaved v after warnings r q e hrefreshed hperformed hsave =>
    have hblob := (blob?_performAll (hout r) hperformed g.cachePlace).trans hrefreshed.blob?_eq
    obtain ⟨hworking, hcontent⟩ := content?_saved hrefreshed (hout r) hperformed hsave
    have hsaved := (g.cachePlace.save_spec (Blob.ofCache ⟨g.fingerprint, r.entries⟩) q.world).1
    rw [hsave] at hsaved
    rcases hsaved with ⟨hok, -⟩ | ⟨-, hkept⟩
    · cases hok
    · obtain ⟨cache, hstart, hrefresh⟩ := hrefreshed
      refine .inr ⟨_, r.report.changed, rfl,
        .midway (by rw [hstart]) hrefresh (hkept.trans hblob) hworking fun l hl hnone => ?_⟩
      rw [hcontent l hl, hnone, Option.none_or]
  | @finished v after warnings r q hrefreshed hperformed hsave =>
    obtain ⟨hworking, hcontent⟩ := content?_saved hrefreshed (hout r) hperformed hsave
    obtain ⟨cache, hstart, hrefresh⟩ := hrefreshed
    exact .inl ⟨_, r, rfl, ⟨cache, warnings, by rw [hstart], hrefresh⟩,
      CachePlace.blob?_of_save hsave, not_giveUp_of_performAll hperformed, hworking, hcontent,
      rfl, rfl, rfl, rfl⟩

theorem run_ok {g : Generator} {w : World} {files : List String} {s : RunSummary}
    (h : (g.run w files).result = .ok s) : ∃ r, g.Done w files r s (g.run w files).world := by
  rcases g.run_cases w files with ⟨t, r, ht, hdone⟩ | ⟨e, _, he, -⟩
  · rw [h] at ht
    cases ht
    exact ⟨r, hdone⟩
  · rw [h] at he
    cases he

theorem run_failed {g : Generator} {w : World} {files : List String} {e : RunError}
    (h : (g.run w files).result = .error e) :
    ∃ wrote, g.Stopped w files wrote (g.run w files).world := by
  rcases g.run_cases w files with ⟨s, r, hs, -⟩ | ⟨_, wrote, -, hstopped⟩
  · rw [h] at hs
    cases hs
  · exact ⟨wrote, hstopped⟩

end HeaderReflect.Generator
