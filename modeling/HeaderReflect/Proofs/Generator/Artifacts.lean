import HeaderReflect.Proofs.Fingerprint
import HeaderReflect.Proofs.Generator.History
import Mathlib.Data.List.Chain

/-!
The generated files along a history of runs that all succeed. A run that visits and drops nothing
writes no files of single headers, so it counts on those of the run before, which had the same
fingerprint. What is written is then the same, since the fingerprint covers all that decides it
(`Tells.alike`). Where it is written is not: the files are in place after every run if consecutive
runs of one fingerprint have the same output directories (`Served.artifacts_inPlace`), but nothing
sees to that (`moved_output_is_stale`).
-/

namespace HeaderReflect

/-! ## What is to be in place -/

theorem Action.exists_of_leavesAll {home l : Location} {as : List Action} {content : Bytes}
    (h : leavesAll home l as = some content) : ∃ a ∈ as, a.leaves home l = some content := by
  induction as with
  | nil => cases h
  | cons a rest ih =>
    rw [leavesAll, Option.or_eq_some_iff] at h
    rcases h with hrest | ⟨-, hhere⟩
    · obtain ⟨b, hb, hleaves⟩ := ih hrest
      exact ⟨b, List.mem_cons_of_mem _ hb, hleaves⟩
    · exact ⟨a, List.mem_cons_self .., hhere⟩

namespace Generator

/-- What the files of single headers leave at a location, with paths taken from `home`. -/
def artifact? (g : Generator) (home : Location) (entries : Entries) (l : Location) :
    Option Bytes :=
  Action.leavesAll home l (g.headerActions true [] (emitted entries))

/-- What the files that speak for all headers leave at a location. -/
def aggregate? (g : Generator) (home : Location) (entries : Entries) (l : Location) :
    Option Bytes :=
  Action.leavesAll home l (g.aggregateActions (g.identifiers entries))

/-- What a run that writes all of its files leaves at a location. -/
def output? (g : Generator) (home : Location) (entries : Entries) (l : Location) : Option Bytes :=
  (g.aggregate? home entries l).or (g.artifact? home entries l)

theorem output?_of_artifact {g : Generator} {home : Location} {entries : Entries} {l : Location}
    {content : Bytes} (hagg : g.aggregate? home entries l = none)
    (hart : g.artifact? home entries l = some content) :
    g.output? home entries l = some content := by
  rw [output?, hagg, hart]
  rfl

/-- All files are in place. -/
def InPlace (g : Generator) (entries : Entries) (w : World) : Prop :=
  ∀ l content, g.output? w.files.working entries l = some content →
    w.files.content? l = some content

/-- The files of single headers are in place, as far as no other file takes their place. -/
def ArtifactsInPlace (g : Generator) (entries : Entries) (w : World) : Prop :=
  ∀ l content, g.aggregate? w.files.working entries l = none →
    g.artifact? w.files.working entries l = some content → w.files.content? l = some content

theorem leavesAll_warnIfTaken (owners : List (String × String)) (identifier key : String)
    (home l : Location) : Action.leavesAll home l (warnIfTaken owners identifier key) = none := by
  unfold warnIfTaken
  split <;> rfl

theorem leavesAll_headerActions_false (g : Generator) (owners : List (String × String))
    (entries : Entries) (home l : Location) :
    Action.leavesAll home l (g.headerActions false owners entries) = none := by
  induction entries generalizing owners with
  | nil => rfl
  | cons e rest ih =>
    obtain ⟨key, entry⟩ := e
    simp only [headerActions, Action.leavesAll_append, ih, leavesAll_warnIfTaken]
    rfl

/-- Without changes only the files that speak for all headers are written. -/
theorem leavesAll_outputActions (g : Generator) (changed : Bool) (entries : Entries)
    (home l : Location) :
    Action.leavesAll home l (g.outputActions changed entries) =
      if changed then g.output? home entries l else g.aggregate? home entries l := by
  have hdirs : Action.leavesAll home l [.makeDirectory g.config.reflOutputDir,
      .makeDirectory g.config.bindingOutputDir] = none := rfl
  rw [outputActions, Action.leavesAll_append, Action.leavesAll_append, hdirs, Option.or_none]
  cases changed with
  | true => rfl
  | false =>
    rw [leavesAll_headerActions_false, Option.or_none]
    rfl

/-- The location of a file in one of the output directories. -/
def Owns (g : Generator) (home l : Location) : Prop :=
  ∃ name, Path.IsFileName name ∧
    (Path.location home (g.reflFile name) = l ∨ Path.location home (g.bindingFile name) = l)

/-- What is written lies in an output directory, and never where a blob is. -/
theorem owns_of_output? {g : Generator} {home : Location} {entries : Entries} {l : Location}
    {content : Bytes} (h : g.output? home entries l = some content) :
    g.Owns home l ∧ ∀ place : CachePlace, place.location? home ≠ some l := by
  have hall := leavesAll_outputActions g true entries home l
  rw [if_pos rfl, h] at hall
  obtain ⟨a, ha, hleaves⟩ := Action.exists_of_leavesAll hall
  have hout := isOutput_outputActions ha
  refine ⟨?_, fun place hplace => ?_⟩
  · cases a with
    | write path text =>
      obtain ⟨name, hname, hpath⟩ := hout
      have hl : Path.location home path = l := by
        by_contra hne
        rw [Action.leaves, if_neg hne] at hleaves
        cases hleaves
      rcases hpath with rfl | rfl
      · exact ⟨name, hname.toIsFileName, .inl hl⟩
      · exact ⟨name, hname.toIsFileName, .inr hl⟩
    | makeDirectory path => cases hleaves
    | warn warning => cases hleaves
    | giveUp e => cases hleaves
    | saveCache c => cases hleaves
  · cases place with
    | inMemory => cases hplace
    | inDirectory base =>
      obtain rfl := Option.some.inj hplace
      rw [hout.leaves_cacheFile home base] at hleaves
      cases hleaves

theorem Done.changed_iff {g : Generator} {w after : World} {files : List String} {r : Refresh}
    {s : RunSummary} (hdone : g.Done w files r s after) :
    r.report.changed = true ↔ 0 < s.visited ∨ 0 < s.dropped := by
  obtain ⟨hvisited, -, -, hdropped⟩ := hdone.counts
  rw [hvisited, hdropped, RefreshReport.changed_iff]

/-- **When the files are in place after a run.** A run that visits or drops something writes all of
them; any other one leaves those of single headers as they are. -/
theorem Done.inPlace_iff {g : Generator} {w after : World} {files : List String} {r : Refresh}
    {s : RunSummary} (hdone : g.Done w files r s after) :
    g.InPlace r.entries after ↔
      0 < s.visited ∨ 0 < s.dropped ∨ g.ArtifactsInPlace r.entries w := by
  have hafter {l : Location} {content : Bytes}
      (hl : g.output? w.files.working r.entries l = some content) :
      after.files.content? l =
        (if r.report.changed then g.output? w.files.working r.entries l
          else g.aggregate? w.files.working r.entries l).or (w.files.content? l) := by
    rw [hdone.content l ((owns_of_output? hl).2 _), leavesAll_outputActions]
  rw [← or_assoc, ← hdone.changed_iff, InPlace, hdone.working]
  by_cases hc : r.report.changed = true
  · refine ⟨fun _ => .inl hc, fun _ l content hl => ?_⟩
    rw [hafter hl, if_pos hc, hl]
    rfl
  · refine ⟨fun hplace => .inr fun l content hagg hart => ?_, fun h l content hl => ?_⟩
    · have hl : g.output? w.files.working r.entries l = some content :=
        output?_of_artifact hagg hart
      have hcontent := hplace l content hl
      rw [hafter hl, if_neg hc, hagg] at hcontent
      exact hcontent
    · rw [hafter hl, if_neg hc]
      cases hagg : g.aggregate? w.files.working r.entries l with
      | some c =>
        rw [output?, hagg] at hl
        exact hl
      | none =>
        rw [output?, hagg] at hl
        exact h.resolve_left hc l content hagg hl

/-! ## Generators that write the same -/

/-- Files of one name have the same place in the output directories. -/
structure SamePlaces (home : Location) (g h : Generator) : Prop where
  reflFile : ∀ name, Path.location home (g.reflFile name) = Path.location home (h.reflFile name)
  bindingFile : ∀ name,
    Path.location home (g.bindingFile name) = Path.location home (h.bindingFile name)

/-- One generator writes what the other one does, to the same places. -/
structure Alike (home : Location) (g h : Generator) : Prop extends SamePlaces home g h where
  memberPrefix : g.config.memberPrefix = h.config.memberPrefix
  includeDir : g.config.includeDir = h.config.includeDir
  render : g.renderer.render = h.renderer.render

/-- Equal fingerprints come from equal texts: the digests do not collide, and no text holds the byte
that ends it. Besides, the imprint of a renderer decides what it writes. -/
structure Tells (g h : Generator) : Prop where
  digest : g.fingerprint = h.fingerprint →
    fingerprintInput g.renderer g.config = fingerprintInput h.renderer h.config
  plain : ∀ part ∈ fingerprintParts g.renderer g.config, Text.Plain part
  plain_other : ∀ part ∈ fingerprintParts h.renderer h.config, Text.Plain part
  imprint : g.renderer.imprint.length = h.renderer.imprint.length
  render : g.renderer.imprint = h.renderer.imprint → g.renderer.render = h.renderer.render

/-- The fingerprint covers all that decides what is written, though not where. -/
theorem Tells.alike {home : Location} {g h : Generator} (htells : g.Tells h)
    (hfp : g.fingerprint = h.fingerprint) (hplaces : SamePlaces home g h) : Alike home g h := by
  have hparts := fingerprintParts_eq_of_input_eq htells.plain htells.plain_other (htells.digest hfp)
  obtain ⟨himprint, -, hmember, -, hinclude⟩ := settings_eq_of_parts_eq htells.imprint hparts
  exact ⟨hplaces, hmember, hinclude, htells.render himprint⟩

theorem renderAll_congr {α : Type} {a b : Renderer} (h : a.render = b.render) (name : TemplateName)
    (toValue : α → Template.Value) (docs : List α) :
    a.renderAll name toValue docs = b.renderAll name toValue docs := by
  induction docs with
  | nil => rfl
  | cons doc rest ih => rw [Renderer.renderAll, Renderer.renderAll, h, ih]

theorem render_congr {a b : Renderer} (h : a.render = b.render) (plan : FilePlan) :
    plan.render a = plan.render b := by
  simp only [FilePlan.render, renderAll_congr h, h]

theorem renderAggregates_congr {a b : Renderer} (h : a.render = b.render)
    (identifiers : List String) : renderAggregates a identifiers = renderAggregates b identifiers := by
  simp only [renderAggregates, h]

namespace Alike

variable {home : Location} {g h : Generator} (halike : Alike home g h)

include halike

theorem planEntry_eq (key : String) (root : Decl) : g.planEntry key root = h.planEntry key root := by
  rw [planEntry, planEntry, halike.memberPrefix, halike.includeDir]

theorem leavesAll_writeHeader (plan : FilePlan) (l : Location) :
    Action.leavesAll home l (g.writeHeader plan) =
      Action.leavesAll home l (h.writeHeader plan) := by
  unfold writeHeader
  rw [render_congr halike.render]
  cases plan.render h.renderer with
  | error e => rfl
  | ok rendered =>
    simp only [Action.leavesAll, Action.leaves, halike.reflFile, halike.bindingFile]

theorem leavesAll_headerActions (owners : List (String × String)) (entries : Entries)
    (l : Location) :
    Action.leavesAll home l (g.headerActions true owners entries) =
      Action.leavesAll home l (h.headerActions true owners entries) := by
  induction entries generalizing owners with
  | nil => rfl
  | cons e rest ih =>
    obtain ⟨key, entry⟩ := e
    simp only [headerActions, Action.leavesAll_append, halike.planEntry_eq, ih, if_true,
      halike.leavesAll_writeHeader]

theorem artifact?_eq (entries : Entries) (l : Location) :
    g.artifact? home entries l = h.artifact? home entries l :=
  halike.leavesAll_headerActions [] (emitted entries) l

theorem aggregate?_eq (entries : Entries) (l : Location) :
    g.aggregate? home entries l = h.aggregate? home entries l := by
  have hidentifiers : g.identifiers entries = h.identifiers entries := by
    simp only [identifiers, halike.planEntry_eq]
  unfold aggregate? aggregateActions
  rw [hidentifiers, renderAggregates_congr halike.render]
  cases renderAggregates h.renderer (h.identifiers entries) with
  | error e => rfl
  | ok rendered =>
    simp only [Action.leavesAll, Action.leaves, halike.reflFile, halike.bindingFile]

theorem output?_eq (entries : Entries) (l : Location) :
    g.output? home entries l = h.output? home entries l := by
  rw [output?, output?, halike.aggregate?_eq, halike.artifact?_eq]

end Alike

/-- A forced run writes all of its files: if it visits nothing there are none of single headers. -/
theorem Done.content_forced {g : Generator} {place : CachePlace} {w after : World}
    {files : List String} {r : Refresh} {s : RunSummary}
    (hdone : (g.forced place).Done w files r s after) {l : Location}
    (hl : place.location? w.files.working ≠ some l) :
    after.files.content? l =
      (g.output? w.files.working r.entries l).or (w.files.content? l) := by
  have halike : Alike w.files.working (g.forced place) g :=
    ⟨⟨fun _ => rfl, fun _ => rfl⟩, rfl, rfl, rfl⟩
  rw [hdone.content l hl, leavesAll_outputActions, ← halike.output?_eq]
  cases hchanged : r.report.changed with
  | true => rfl
  | false =>
    obtain ⟨cache, warnings, hstart, hrefresh⟩ := hdone.refreshed
    rw [startCache_of_force rfl] at hstart
    obtain ⟨rfl, -⟩ := Prod.mk.inj (Except.ok.inj hstart)
    have hentries : r.entries = [] := Cache.entries_of_unchanged hrefresh .nil hchanged
    have hnone : (g.forced place).artifact? w.files.working r.entries l = none := by
      rw [hentries]
      rfl
    rw [output?, hnone, Option.or_none]
    rfl

end Generator

/-! ## Histories of runs that succeed -/

/-- Between runs neither the blob nor the files that the last run may have written change, and the
working directory stays the same. The generators of the runs are listed from the last one back. -/
structure Kept (place : CachePlace) (gs : List Generator) (v w : World) : Prop where
  blob : place.blob? w = place.blob? v
  working : w.files.working = v.files.working
  output : ∀ g ∈ gs.head?, ∀ l, g.Owns v.files.working l →
    w.files.content? l = v.files.content? l

/-- The worlds that runs on one store lead to if all of them succeed, with the generators of the
runs. -/
inductive Served (place : CachePlace) (outcomes : Outcomes) : List Generator → World → Prop where
  | start {w : World} (hblob : place.blob? w = none) : Served place outcomes [] w
  | run {gs : List Generator} {v w : World} {g : Generator} {files : List String} {s : RunSummary}
      (hv : Served place outcomes gs v) (hkept : Kept place gs v w) (hplace : g.cachePlace = place)
      (hfollows : g.Follows outcomes w.files files) (hrun : (g.run w files).result = .ok s) :
      Served place outcomes (g :: gs) (g.run w files).world

theorem Served.reached {place : CachePlace} {outcomes : Outcomes} {gs : List Generator}
    {w : World} (h : Served place outcomes gs w) : Reached place outcomes w := by
  induction h with
  | start hblob => exact .start hblob
  | run _ hkept hplace hfollows _ ih => exact .run (.meanwhile ih hkept.blob) hplace hfollows

/-- With the same fingerprint the output directories are the same. -/
def Generator.Stays (home : Location) (g h : Generator) : Prop :=
  g.fingerprint = h.fingerprint → SamePlaces home g h

/-- The blob is the cache of the last run, and the files of that run are in place. -/
def Stored (place : CachePlace) : List Generator → World → Prop
  | [], w => place.blob? w = none
  | g :: _, w => ∃ entries : Entries, entries.Sorted ∧
      place.blob? w = some (Blob.ofCache ⟨g.fingerprint, entries⟩) ∧ g.InPlace entries w

/-- A start from what the last run has stored is one from nothing, or from its entries under its
fingerprint. -/
theorem Stored.startCache {gs : List Generator} {v w : World} {g : Generator} {cache : Cache}
    {warnings : List Warning} (hstored : Stored g.cachePlace gs v)
    (hblob : g.cachePlace.blob? w = g.cachePlace.blob? v)
    (hstart : (g.startCache w).1 = .ok (cache, warnings)) :
    cache.entries = [] ∨
      ∃ h ∈ gs.head?, g.fingerprint = h.fingerprint ∧ cache.entries.Sorted ∧
        h.InPlace cache.entries v := by
  cases gs with
  | nil =>
    rw [Generator.startCache_of_none (hblob.trans hstored) hstart]
    exact .inl rfl
  | cons h gs =>
    obtain ⟨entries, hsorted, hcache, hplace⟩ := hstored
    rcases Generator.startCache_of_some hsorted (hblob.trans hcache) hstart with rfl | ⟨rfl, hfp⟩
    · exact .inl rfl
    · exact .inr ⟨h, rfl, hfp.symm, hsorted, hplace⟩

/-- A run from what the last one has stored has all of its files in place, if it stays with the
output directories. -/
theorem Generator.Done.inPlace {g : Generator} {gs : List Generator} {v w after : World}
    {files : List String} {r : Refresh} {s : RunSummary} (hdone : g.Done w files r s after)
    (hstored : Stored g.cachePlace gs v) (hkept : Kept g.cachePlace gs v w)
    (halike : ∀ h ∈ gs.head?, g.fingerprint = h.fingerprint → Alike w.files.working g h) :
    g.InPlace r.entries after := by
  rw [hdone.inPlace_iff, ← or_assoc, ← hdone.changed_iff]
  obtain ⟨cache, warnings, hstart, hrefresh⟩ := hdone.refreshed
  cases hchanged : r.report.changed with
  | true => exact .inl rfl
  | false =>
    refine .inr fun l content hagg hart => ?_
    rcases hstored.startCache hkept.blob hstart with hnil | ⟨h, hlast, hfp, hsorted, hplace⟩
    · have hentries := Cache.entries_of_unchanged hrefresh (hnil ▸ .nil) hchanged
      rw [hentries, hnil] at hart
      cases hart
    · have hentries := Cache.entries_of_unchanged hrefresh hsorted hchanged
      have hout : h.output? v.files.working cache.entries l = some content := by
        rw [← hkept.working, ← (halike h hlast hfp).output?_eq, ← hentries]
        exact output?_of_artifact hagg hart
      rw [hkept.output h hlast l (owns_of_output? hout).1]
      exact hplace l content hout

theorem Generator.alike_of_chain {home : Location} {g : Generator} {gs : List Generator}
    (htells : (g :: gs).IsChain Tells) (hstays : (g :: gs).IsChain (Stays home)) :
    ∀ h ∈ gs.head?, g.fingerprint = h.fingerprint → Alike home g h := by
  intro h hlast hfp
  cases gs with
  | nil => cases hlast
  | cons k gs =>
    obtain rfl := Option.some.inj hlast
    rw [List.isChain_cons_cons] at htells hstays
    exact htells.1.alike hfp (hstays.1 hfp)

theorem Served.stored {place : CachePlace} {outcomes : Outcomes} {gs : List Generator}
    {w : World} (h : Served place outcomes gs w) (htells : gs.IsChain Generator.Tells)
    (hstays : gs.IsChain (Generator.Stays w.files.working)) : Stored place gs w := by
  induction h with
  | start hblob => exact hblob
  | run _ hkept hplace hfollows hrun ih =>
    subst hplace
    obtain ⟨r, hdone⟩ := Generator.run_ok hrun
    obtain ⟨cache, warnings, -, hrefresh⟩ := hdone.refreshed
    rw [hdone.working] at hstays
    have hstored := ih htells.tail (hkept.working ▸ hstays.tail)
    have hplace := hdone.inPlace hstored hkept (Generator.alike_of_chain htells hstays)
    exact ⟨r.entries, Cache.sorted_of_refresh hrefresh, hdone.blob, hplace⟩

/-- **The files of a forced run are in place after the last run**, if consecutive runs with one
fingerprint have the same output directories. In any case they are in place exactly if the last run
visited or dropped something or the files of single headers were there before. -/
theorem Served.artifacts_inPlace {place : CachePlace} {outcomes : Outcomes} {gs : List Generator}
    {v w : World} (hv : Served place outcomes gs v) (hkept : Kept place gs v w) {g : Generator}
    (hplace : g.cachePlace = place) {files : List String}
    (hfollows : g.Follows outcomes w.files files) {s : RunSummary}
    (hrun : (g.run w files).result = .ok s) :
    ∃ entries, g.forcedEntries? w.files files = some entries ∧
      ((g :: gs).IsChain Generator.Tells →
        (g :: gs).IsChain (Generator.Stays w.files.working) →
        g.InPlace entries (g.run w files).world) ∧
      (g.InPlace entries (g.run w files).world ↔
        0 < s.visited ∨ 0 < s.dropped ∨ g.ArtifactsInPlace entries w) ∧
      ∀ (other : CachePlace) (u : World) (t : RunSummary),
        (Generator.stampAll u.files files).1 = (Generator.stampAll w.files files).1 →
        g.Follows outcomes u.files files → ((g.forced other).run u files).result = .ok t →
        ∀ l, other.location? u.files.working ≠ some l →
          ((g.forced other).run u files).world.files.content? l =
            (g.output? u.files.working entries l).or (u.files.content? l) := by
  subst hplace
  obtain ⟨r, hdone⟩ := Generator.run_ok hrun
  have hsound : Sound outcomes (g.cachePlace.blob? w) := hkept.blob ▸ hv.reached.sound
  have hgather := hdone.gather_eq hsound hfollows
  refine ⟨r.entries, ?_, fun htells hstays => ?_, hdone.inPlace_iff, ?_⟩
  · rw [Generator.forcedEntries?_eq hfollows, hgather]
  · have hstored := hv.stored htells.tail (hkept.working ▸ hstays.tail)
    exact hdone.inPlace hstored hkept (Generator.alike_of_chain htells hstays)
  · intro other u t hstamps hu hforced l hl
    obtain ⟨q, hq⟩ := Generator.run_ok hforced
    have hentries : some q.entries = some r.entries := by
      rw [← hq.forcedEntries?_eq, Generator.forcedEntries?_eq hu, hstamps, hgather]
    rw [hq.content_forced hl, Option.some.inj hentries]

namespace Sample

theorem run_empty :
    (generator.run { files := headers 2 } paths).result = .ok { visited := 2, written := 8 } :=
  toOption_eq_some_iff.mp (by decide +kernel)

theorem served_first : Served .inMemory outcomes [generator] first := by
  have hstart : Served .inMemory outcomes [] { files := headers 2 } := .start rfl
  exact .run hstart ⟨rfl, rfl, nofun⟩ rfl (follows 2) run_empty

theorem run_first :
    (generator.run first paths).result = .ok { reused := 2, unchanged := 4 } :=
  toOption_eq_some_iff.mp (by decide +kernel)

theorem tells_generator : generator.Tells generator := by
  have hplain : ∀ part ∈ fingerprintParts generator.renderer generator.config, Text.Plain part := by
    decide
  exact ⟨fun _ => rfl, hplain, hplain, rfl, fun _ => rfl⟩

end Sample

/-- A run that visits nothing finds the files of the run before in place. -/
theorem Served.artifacts_inPlace_rerun :
    ∃ s, (Sample.generator.run Sample.first Sample.paths).result = .ok s ∧ s.visited = 0 ∧
      ∃ entries, Sample.generator.forcedEntries? Sample.first.files Sample.paths = some entries ∧
        Sample.generator.InPlace entries (Sample.generator.run Sample.first Sample.paths).world ∧
        (Sample.generator.InPlace entries (Sample.generator.run Sample.first Sample.paths).world ↔
          0 < s.visited ∨ 0 < s.dropped ∨ Sample.generator.ArtifactsInPlace entries Sample.first) := by
  have hfollows : Sample.generator.Follows Sample.outcomes Sample.first.files Sample.paths :=
    Sample.follows_of_texts (by decide +kernel)
  obtain ⟨entries, hforced, hplace, hiff, -⟩ :=
    Sample.served_first.artifacts_inPlace ⟨rfl, rfl, fun _ _ _ _ => rfl⟩ rfl hfollows
      Sample.run_first
  have htells : [Sample.generator, Sample.generator].IsChain Generator.Tells :=
    .cons_cons Sample.tells_generator (.singleton _)
  have hstays : [Sample.generator, Sample.generator].IsChain
      (Generator.Stays Sample.first.files.working) :=
    .cons_cons (fun _ => ⟨fun _ => rfl, fun _ => rfl⟩) (.singleton _)
  exact ⟨_, Sample.run_first, rfl, entries, hforced, hplace htells hstays, hiff⟩

/-! ## Output directories that move -/

/-- The fingerprint does not cover the output directories. -/
theorem fingerprint_outputDirs (r : Renderer) (c : Config) (reflDir bindingDir : String) :
    fingerprint r { c with reflOutputDir := reflDir, bindingOutputDir := bindingDir } =
      fingerprint r c :=
  rfl

/-- The generator with other output directories. -/
def Sample.moved : Generator :=
  { generator with
    config := { config with reflOutputDir := "refl2", bindingOutputDir := "binding2" } }

/-- Where a run that succeeds differs from the one before in nothing but its output directories, the
files of single headers are missing there, though a forced run writes them. -/
theorem moved_output_is_stale :
    Served .inMemory Sample.outcomes [Sample.generator] Sample.first ∧
      Sample.moved.fingerprint = Sample.generator.fingerprint ∧
      (Sample.moved.run Sample.first Sample.paths).result.toOption =
        some { reused := 2, written := 4 } ∧
      (Sample.moved.run Sample.first Sample.paths).world.files.content?
        ["work", "refl2", "a.hpp"] = none ∧
      (((Sample.moved.forced .inMemory).run Sample.first Sample.paths).world.files.content?
        ["work", "refl2", "a.hpp"]).isSome = true := by
  have hsame : Sample.moved.fingerprint = Sample.generator.fingerprint :=
    fingerprint_outputDirs ..
  refine ⟨Sample.served_first, hsame, ?_⟩
  decide +kernel

end HeaderReflect
