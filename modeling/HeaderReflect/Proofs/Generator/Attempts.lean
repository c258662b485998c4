import HeaderReflect.Proofs.Generator.Artifacts

/-!
The generated files along a history of runs of one generator that may fail or be stopped anywhere.
A run that succeeds finds out by itself that files of single headers have to be written, unless the
headers are as the last run that succeeded found them. So the files are in place after it, unless
that is the case and a run in between was stopped while it wrote other ones
(`Tried.inPlace_unless_back`). Then they stay as that run left them (`stopped_output_is_stale`).
-/

namespace HeaderReflect

/-! ## One generator -/

namespace Generator

/-- The same generator when other things are declared in the headers, and perhaps forced. -/
def reading (g : Generator) (cursors : CursorSource) (force : Bool) : Generator :=
  { g with cursors, force }

theorem alike_reading (g : Generator) (cursors : CursorSource) (force : Bool) (home : Location) :
    Alike home (g.reading cursors force) g :=
  ⟨⟨fun _ => rfl, fun _ => rfl⟩, rfl, rfl, rfl⟩

theorem Alike.inPlace_iff {g h : Generator} {w : World} (halike : Alike w.files.working g h)
    {entries : Entries} : g.InPlace entries w ↔ h.InPlace entries w := by
  simp only [InPlace, halike.output?_eq]

theorem Alike.artifactsInPlace_iff {g h : Generator} {w : World}
    (halike : Alike w.files.working g h) {entries : Entries} :
    g.ArtifactsInPlace entries w ↔ h.ArtifactsInPlace entries w := by
  simp only [ArtifactsInPlace, halike.aggregate?_eq, halike.artifact?_eq]

/-- A forced run that succeeds leaves the files for the entries that are gathered from scratch. -/
theorem content?_forced {g : Generator} {outcomes : Outcomes} {place : CachePlace} {w : World}
    {files : List String} {entries : Entries} {s : RunSummary}
    (hgather : Entries.gather (outcomes g.fingerprint) [] (stampAll w.files files).1 = some entries)
    (hfollows : g.Follows outcomes w.files files)
    (hrun : ((g.forced place).run w files).result = .ok s) {l : Location}
    (hl : place.location? w.files.working ≠ some l) :
    ((g.forced place).run w files).world.files.content? l =
      (g.output? w.files.working entries l).or (w.files.content? l) := by
  obtain ⟨r, hdone⟩ := run_ok hrun
  have hentries : some r.entries = some entries := by
    rw [← hdone.forcedEntries?_eq, forcedEntries?_eq hfollows, hgather]
  rw [hdone.content_forced hl, Option.some.inj hentries]

theorem InPlace.artifacts {g : Generator} {entries : Entries} {w : World}
    (h : g.InPlace entries w) : g.ArtifactsInPlace entries w := by
  intro l content hagg hart
  exact h l content (output?_of_artifact hagg hart)

/-- Without headers there is nothing that could be out of place. -/
theorem artifactsInPlace_nil (g : Generator) (w : World) : g.ArtifactsInPlace [] w := by
  intro l content _ hart
  cases hart

/-- The files that speak for all headers are always the same ones. -/
theorem leavesAll_aggregateActions {g : Generator} {identifiers : List String}
    {home l : Location} (hrendered : ∀ e, Action.giveUp e ∉ g.aggregateActions identifiers)
    (hnone : Action.leavesAll home l (g.aggregateActions identifiers) = none)
    (others : List String) : Action.leavesAll home l (g.aggregateActions others) = none := by
  unfold aggregateActions at hrendered hnone ⊢
  cases hown : renderAggregates g.renderer identifiers with
  | error e =>
    rw [hown] at hrendered
    exact absurd (List.mem_singleton.mpr rfl) (hrendered e)
  | ok rendered =>
    rw [hown] at hnone
    cases renderAggregates g.renderer others with
    | error e => rfl
    | ok other =>
      simpa [Action.leavesAll, Action.leaves] using hnone

end Generator

/-! ## Histories of attempts -/

/-- The worlds that runs of one generator lead to, whether they succeed or are stopped. What is
declared in the headers changes at will, but between runs nothing touches the blob and the output
directories. Along go the entries of the last run that succeeded, and whether a run was stopped
while it wrote files of single headers and none has written all of them since. -/
inductive Tried (g : Generator) (outcomes : Outcomes) : Option Entries → Bool → World → Prop where
  | start {w : World} (hblob : g.cachePlace.blob? w = none) : Tried g outcomes none false w
  | meanwhile {last : Option Entries} {strayed : Bool} {v w : World}
      (hv : Tried g outcomes last strayed v) (hkept : Kept g.cachePlace [g] v w) :
      Tried g outcomes last strayed w
  | stopped {last : Option Entries} {strayed wrote : Bool} {w after : World}
      {cursors : CursorSource} {force : Bool} {files : List String}
      (hw : Tried g outcomes last strayed w)
      (hfollows : (g.reading cursors force).Follows outcomes w.files files)
      (hstopped : (g.reading cursors force).Stopped w files wrote after) :
      Tried g outcomes last (strayed || wrote) after
  | done {last : Option Entries} {strayed : Bool} {w : World} {cursors : CursorSource}
      {force : Bool} {files : List String} {s : RunSummary} {entries : Entries}
      (hw : Tried g outcomes last strayed w)
      (hfollows : (g.reading cursors force).Follows outcomes w.files files)
      (hrun : ((g.reading cursors force).run w files).result = .ok s)
      (hentries : (g.reading cursors force).forcedEntries? w.files files = some entries) :
      Tried g outcomes (some entries) (strayed && s.visited == 0 && s.dropped == 0)
        ((g.reading cursors force).run w files).world

theorem Tried.reached {g : Generator} {outcomes : Outcomes} {last : Option Entries}
    {strayed : Bool} {w : World} (h : Tried g outcomes last strayed w) :
    Reached g.cachePlace outcomes w := by
  induction h with
  | start hblob => exact .start hblob
  | meanwhile _ hkept ih => exact .meanwhile ih hkept.blob
  | stopped _ _ hstopped ih => exact .meanwhile ih hstopped.blob
  | done _ hfollows _ _ ih => exact .run ih rfl hfollows

/-- What stands since a run that succeeded with these entries: the blob is its cache, and unless a
run has strayed, its files of single headers are in place. -/
structure Stands (g : Generator) (strayed : Bool) (w : World) (entries : Entries) : Prop where
  sorted : entries.Sorted
  blob : g.cachePlace.blob? w = some (Blob.ofCache ⟨g.fingerprint, entries⟩)
  rendered : ∀ e, Action.giveUp e ∉ g.aggregateActions (g.identifiers entries)
  inPlace : strayed = false → g.ArtifactsInPlace entries w

/-- The invariant of histories. Before any run has succeeded nothing is stored. -/
def Standing (g : Generator) (strayed : Bool) (w : World) : Option Entries → Prop
  | none => g.cachePlace.blob? w = none
  | some entries => Stands g strayed w entries

namespace Standing

variable {g : Generator} {last : Option Entries} {strayed : Bool} {w after : World}
  {cursors : CursorSource} {force : Bool} {files : List String}

/-- A run starts from nothing or, if it is not forced, from the entries of the last one that
succeeded. -/
theorem startCache (h : Standing g strayed w last) {cache : Cache} {warnings : List Warning}
    (hstart : ((g.reading cursors force).startCache w).1 = .ok (cache, warnings)) :
    cache.entries = [] ∨ force = false ∧ last = some cache.entries ∧ cache.entries.Sorted := by
  cases force with
  | true =>
    rw [Generator.startCache_of_force rfl] at hstart
    obtain ⟨rfl, -⟩ := Prod.mk.inj (Except.ok.inj hstart)
    exact .inl rfl
  | false =>
    cases last with
    | none =>
      have hblob : (g.reading cursors false).cachePlace.blob? w = none := h
      rw [Generator.startCache_of_none hblob hstart]
      exact .inl rfl
    | some entries =>
      have hstands : Stands g strayed w entries := h
      have hblob : (g.reading cursors false).cachePlace.blob? w =
          some (Blob.ofCache ⟨g.fingerprint, entries⟩) := hstands.blob
      rcases Generator.startCache_of_some hstands.sorted hblob hstart with rfl | ⟨rfl, -⟩
      · exact .inl rfl
      · exact .inr ⟨rfl, rfl, hstands.sorted⟩

/-- A run that succeeds has its files in place, unless it finds all as the last one did after
another has strayed. -/
theorem inPlace (h : Standing g strayed w last) {r : Refresh} {s : RunSummary}
    (hdone : (g.reading cursors force).Done w files r s after)
    (hback : force = false → last = some r.entries → strayed = false) :
    (g.reading cursors force).InPlace r.entries after := by
  rw [hdone.inPlace_iff, ← or_assoc, ← hdone.changed_iff]
  obtain ⟨cache, warnings, hstart, hrefresh⟩ := hdone.refreshed
  cases hchanged : r.report.changed with
  | true => exact .inl rfl
  | false =>
    -- The entries are those the run started from: none, or the ones of the last run.
    right
    rcases h.startCache hstart with hnil | ⟨hforce, rfl, hsorted⟩
    · rw [Cache.entries_of_unchanged hrefresh (hnil ▸ .nil) hchanged, hnil]
      exact Generator.artifactsInPlace_nil _ _
    · have hentries := Cache.entries_of_unchanged hrefresh hsorted hchanged
      rw [hentries] at hback ⊢
      rw [(g.alike_reading cursors force _).artifactsInPlace_iff]
      exact Stands.inPlace h (hback hforce rfl)

theorem meanwhile (h : Standing g strayed w last) (hkept : Kept g.cachePlace [g] w after) :
    Standing g strayed after last := by
  cases last with
  | none => exact hkept.blob.trans h
  | some entries =>
    obtain ⟨hsorted, hblob, hrendered, hplace⟩ := h
    refine ⟨hsorted, hkept.blob.trans hblob, hrendered, fun hfalse l content hagg hart => ?_⟩
    rw [hkept.working] at hagg hart
    have hout : g.output? w.files.working entries l = some content :=
      Generator.output?_of_artifact hagg hart
    rw [hkept.output g rfl l (Generator.owns_of_output? hout).1]
    exact hplace hfalse l content hagg hart

/-- A run that is stopped leaves the files of single headers alone, unless it strays. -/
theorem stopped (h : Standing g strayed w last) {wrote : Bool}
    (hstopped : (g.reading cursors force).Stopped w files wrote after) :
    Standing g (strayed || wrote) after last := by
  cases last with
  | none => exact hstopped.blob.trans h
  | some entries =>
    obtain ⟨hsorted, hblob, hrendered, hplace⟩ := h
    refine ⟨hsorted, hstopped.blob.trans hblob, hrendered, fun hfalse l content hagg hart => ?_⟩
    obtain ⟨hstrayed, hwrote⟩ := Bool.or_eq_false_iff.mp hfalse
    rw [hstopped.working] at hagg hart
    have hbefore := hplace hstrayed l content hagg hart
    cases hstopped with
    | early _ _ hcontent => rw [hcontent, hbefore]
    | @midway _ _ r _ _ _ _ _ hcontent =>
      -- Without changes it writes the files that speak for all headers, and none of them is here.
      have hothers :
          (g.reading cursors force).aggregate? w.files.working r.entries l = none := by
        rw [(g.alike_reading cursors force _).aggregate?_eq]
        exact Generator.leavesAll_aggregateActions hrendered hagg _
      have hout : g.output? w.files.working entries l = some content :=
        Generator.output?_of_artifact hagg hart
      rw [hcontent l ((Generator.owns_of_output? hout).2 _), hbefore]
      rw [Generator.leavesAll_outputActions, hwrote]
      exact hothers

theorem done (h : Standing g strayed w last) {r : Refresh} {s : RunSummary}
    (hdone : (g.reading cursors force).Done w files r s after) :
    Standing g (strayed && s.visited == 0 && s.dropped == 0) after (some r.entries) := by
  obtain ⟨cache, warnings, -, hrefresh⟩ := hdone.refreshed
  refine ⟨Cache.sorted_of_refresh hrefresh, hdone.blob, fun e hmem => ?_, fun hfalse => ?_⟩
  · exact hdone.rendered e (List.mem_append_right _ hmem)
  · rw [← (g.alike_reading cursors force _).artifactsInPlace_iff]
    apply Generator.InPlace.artifacts
    cases strayed with
    | false => exact h.inPlace hdone fun _ _ => rfl
    | true =>
      have hchanged : 0 < s.visited ∨ 0 < s.dropped := by
        rw [Bool.true_and, Bool.and_eq_false_iff, beq_eq_false_iff_ne, beq_eq_false_iff_ne] at hfalse
        omega
      exact hdone.inPlace_iff.mpr (or_assoc.mp (.inl hchanged))

end Standing

theorem Tried.standing {g : Generator} {outcomes : Outcomes} {last : Option Entries}
    {strayed : Bool} {w : World} (h : Tried g outcomes last strayed w) :
    Standing g strayed w last := by
  induction h with
  | start hblob => exact hblob
  | meanwhile _ hkept ih => exact ih.meanwhile hkept
  | stopped _ _ hstopped ih => exact ih.stopped hstopped
  | done hw hfollows hrun hentries ih =>
    obtain ⟨r, hdone⟩ := Generator.run_ok hrun
    have hgather := hdone.gather_eq hw.reached.sound hfollows
    rw [Generator.forcedEntries?_eq hfollows, hgather] at hentries
    rw [← hentries]
    exact ih.done hdone

/-- **The files of a forced run are in place after a run that succeeds**, however the runs before it
ended, unless it finds the headers as the last run that succeeded did and another one was stopped in
between while it wrote files of single headers. A forced run makes up for that too. In any case they
are in place exactly if the run visited or dropped something or the files of single headers were
there before. -/
theorem Tried.inPlace_unless_back {g : Generator} {outcomes : Outcomes} {last : Option Entries}
    {strayed : Bool} {w : World} (hw : Tried g outcomes last strayed w) {cursors : CursorSource}
    {force : Bool} {files : List String}
    (hfollows : (g.reading cursors force).Follows outcomes w.files files) {s : RunSummary}
    (hrun : ((g.reading cursors force).run w files).result = .ok s) :
    ∃ entries, (g.reading cursors force).forcedEntries? w.files files = some entries ∧
      ((force = false → last = some entries → strayed = false) →
        g.InPlace entries ((g.reading cursors force).run w files).world) ∧
      (g.InPlace entries ((g.reading cursors force).run w files).world ↔
        0 < s.visited ∨ 0 < s.dropped ∨ g.ArtifactsInPlace entries w) ∧
      ∀ (other : CachePlace) (u : World) (t : RunSummary),
        (Generator.stampAll u.files files).1 = (Generator.stampAll w.files files).1 →
        (g.reading cursors force).Follows outcomes u.files files →
        (((g.reading cursors force).forced other).run u files).result = .ok t →
        ∀ l, other.location? u.files.working ≠ some l →
          (((g.reading cursors force).forced other).run u files).world.files.content? l =
            (g.output? u.files.working entries l).or (u.files.content? l) := by
  have halike (home : Location) := g.alike_reading cursors force home
  obtain ⟨r, hdone⟩ := Generator.run_ok hrun
  have hgather := hdone.gather_eq hw.reached.sound hfollows
  refine ⟨r.entries, ?_, fun hback => ?_, ?_, fun other u t hstamps hu hforced l hl => ?_⟩
  · rw [Generator.forcedEntries?_eq hfollows, hgather]
  · exact (halike _).inPlace_iff.mp (hw.standing.inPlace hdone hback)
  · rw [← (halike _).inPlace_iff, ← (halike _).artifactsInPlace_iff]
    exact hdone.inPlace_iff
  · rw [← (halike _).output?_eq]
    exact Generator.content?_forced (hstamps ▸ hgather) hu hforced hl

/-! ## A header that changes and changes back -/

namespace Sample

/-- Every header declares one enumeration, with this item. -/
def declaring (item : String) : CursorSource := fun path =>
  .ok ((Cursor.unit path).append
    [(Cursor.enumDecl "Color" [item]).annotate "nickel(refl)"]).located

/-- What a header declares that has this stamp. -/
def color (stamp : Stamp) : String := if stamp = Stamp.ofTime 2 then "red" else "blue"

def colored : Outcomes := fun _ key stamp =>
  Refresh.settle (visitSource (declaring (color stamp)) config.marker key "REFL")

/-- The generator while all headers declare this. -/
def seeing (item : String) : Generator := generator.reading (declaring item) false

/-- The header has been there unchanged since the given time. -/
def Dated (w : World) (time : Time) : Prop :=
  (Generator.stampAll w.files ["b.h"]).1 = [⟨"b.h", Stamp.ofTime time⟩] ∧
    (w.files.readText "b.h").toOption = some "REFL" ∧
    w.files.content? ["work", "b.h"] = some (Text.utf8 "REFL")

instance (w : World) (time : Time) : Decidable (Dated w time) :=
  inferInstanceAs (Decidable (_ ∧ _ ∧ _))

theorem follows_dated {w : World} {time : Time} (h : Dated w time) {item : String}
    (hitem : color (Stamp.ofTime time) = item) :
    (seeing item).Follows colored w.files ["b.h"] := by
  obtain ⟨hstamps, htext, -⟩ := h
  intro c hc
  rw [hstamps] at hc
  obtain rfl := List.mem_singleton.mp hc
  have hkey : Path.key "b.h" = "b.h" := by decide
  rw [Generator.visit_of_text htext, colored, hkey, hitem]
  rfl

/-- The header is changed at the given time, and from then on saving fails or does not. -/
def edit (time : Time) (failSaves : Bool) (w : World) : World where
  files := w.files.set ["work", "b.h"] (.file (Text.utf8 "REFL") time)
  memory := { w.memory with failSaves }

theorem kept_edit {w : World} {old : Time} (h : Dated w old) (time : Time) (failSaves : Bool) :
    Kept generator.cachePlace [generator] w (edit time failSaves w) := by
  refine ⟨rfl, rfl, fun _ _ l _ => ?_⟩
  show (w.files.set _ _).content? l = _
  rw [FileSystem.content?_set]
  split_ifs with hl
  · rw [hl, h.2.2]
    rfl
  · rfl

def unseen : World := { files := headers 2 }

/-- The header is red. -/
def firstRun : RunOutcome := (seeing "red").run unseen ["b.h"]

/-- The header has turned blue, and the cache cannot be saved. -/
def failedRun : RunOutcome := (seeing "blue").run (edit 3 true firstRun.world) ["b.h"]

/-- The header is still blue, and the cache can be saved again. -/
def mended : World := edit 3 false failedRun.world

/-- The header is red as before, and the cache can be saved again. -/
def back : World := edit 2 false failedRun.world

/-- The stamps of entries. -/
def stamps (entries : Entries) : List Stamp := entries.map (·.2.stamp)

-- All of it in one evaluation, since that of a world takes the runs before it.
theorem course :
    (Dated unseen 2 ∧ Dated firstRun.world 2 ∧ Dated (edit 3 true firstRun.world) 3 ∧
        Dated failedRun.world 3 ∧ Dated mended 3 ∧ Dated back 2) ∧
      firstRun.result.toOption = some { visited := 1, written := 6 } ∧
      failedRun.result.toOption = none ∧
      ((seeing "blue").run mended ["b.h"]).result.toOption = some { visited := 1, unchanged := 6 } ∧
      ((seeing "red").run back ["b.h"]).result.toOption = some { reused := 1, unchanged := 4 } ∧
      ((seeing "red").forcedEntries? unseen.files ["b.h"]).map stamps = some [Stamp.ofTime 2] ∧
      ((seeing "blue").forcedEntries? mended.files ["b.h"]).map stamps = some [Stamp.ofTime 3] ∧
      ((seeing "red").run back ["b.h"]).world.files.content? ["refl", "b.hpp"] ≠
        (((seeing "red").forced .inMemory).run back ["b.h"]).world.files.content?
          ["refl", "b.hpp"] := by
  decide +kernel

theorem tried_firstRun :
    ∃ last, stamps last = [Stamp.ofTime 2] ∧
      Tried generator colored (some last) false firstRun.world := by
  obtain ⟨⟨hunseen, -⟩, hrun, -, -, -, hforced, -⟩ := course
  obtain ⟨last, hlast, hstamps⟩ := Option.map_eq_some_iff.mp hforced
  have hstart : Tried generator colored none false unseen := .start rfl
  have hok : firstRun.result = .ok { visited := 1, written := 6 } := toOption_eq_some_iff.mp hrun
  exact ⟨last, hstamps, hstart.done (follows_dated hunseen rfl) hok hlast⟩

theorem tried_failedRun :
    ∃ last strayed, stamps last = [Stamp.ofTime 2] ∧
      Tried generator colored (some last) strayed failedRun.world := by
  obtain ⟨⟨-, hfirst, hedited, -⟩, -, hfailed, -⟩ := course
  obtain ⟨last, hstamps, htried⟩ := tried_firstRun
  have hblue := htried.meanwhile (kept_edit hfirst 3 true)
  cases hresult : failedRun.result with
  | ok s =>
    rw [hresult] at hfailed
    cases hfailed
  | error e =>
    obtain ⟨wrote, hstopped⟩ := Generator.run_failed hresult
    exact ⟨last, _, hstamps, hblue.stopped (follows_dated hedited rfl) hstopped⟩

end Sample

/-- Once the cache can be saved, a run makes up for the one that was stopped. -/
theorem Tried.inPlace_unless_back_mended :
    ∃ s, ((Sample.seeing "blue").run Sample.mended ["b.h"]).result = .ok s ∧
      ∃ entries,
        (Sample.seeing "blue").forcedEntries? Sample.mended.files ["b.h"] = some entries ∧
        Sample.generator.InPlace entries
          ((Sample.seeing "blue").run Sample.mended ["b.h"]).world := by
  obtain ⟨⟨-, -, -, hfailed, hmended, -⟩, -, -, hrun, -, -, hforced, -⟩ := Sample.course
  obtain ⟨last, strayed, hlast, htried⟩ := Sample.tried_failedRun
  have hok := toOption_eq_some_iff.mp hrun
  obtain ⟨entries, hentries, hplace, -⟩ :=
    (htried.meanwhile (Sample.kept_edit hfailed 3 false)).inPlace_unless_back
      (Sample.follows_dated hmended rfl) hok
  refine ⟨_, hok, entries, hentries, hplace fun _ hback => ?_⟩
  -- The stamps tell that the header is not as the last run that succeeded found it.
  obtain ⟨found, hfound, hstamps⟩ := Option.map_eq_some_iff.mp hforced
  have hsame : found = last := Option.some.inj (hfound.symm.trans (hentries.trans hback.symm))
  rw [hsame, hlast] at hstamps
  exact absurd hstamps (by decide)

/-- Where the header is as it was before a run that could not save its cache, the next run leaves
the file that one wrote, though a forced run writes another. -/
theorem stopped_output_is_stale :
    (∃ last strayed, Tried Sample.generator Sample.colored last strayed Sample.back) ∧
      (Sample.seeing "red").Follows Sample.colored Sample.back.files ["b.h"] ∧
      ((Sample.seeing "red").run Sample.back ["b.h"]).result.toOption =
        some { reused := 1, unchanged := 4 } ∧
      ((Sample.seeing "red").run Sample.back ["b.h"]).world.files.content? ["refl", "b.hpp"] ≠
        (((Sample.seeing "red").forced .inMemory).run Sample.back ["b.h"]).world.files.content?
          ["refl", "b.hpp"] := by
  obtain ⟨⟨-, -, -, hfailed, -, hback⟩, -, -, -, hrun, -, -, hstale⟩ := Sample.course
  obtain ⟨last, strayed, -, htried⟩ := Sample.tried_failedRun
  refine ⟨⟨_, _, htried.meanwhile (Sample.kept_edit hfailed 2 false)⟩, ?_, hrun, hstale⟩
  exact Sample.follows_dated hback rfl

end HeaderReflect
