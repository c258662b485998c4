import HeaderReflect.Cursor.Builder
import HeaderReflect.Proofs.Blob.RoundTrip
import HeaderReflect.Proofs.Generator.Run
import HeaderReflect.Proofs.Merge.Placement

/-!
Histories of runs on one store. Where the fingerprint, key and stamp of a header decide what its
visit gives, the blob is at any time absent or the stored form of entries so decided. So after a
run that succeeds it is the blob of a forced run over the same headers
(`Reached.blob_eq_forced`), whatever runs there were before and however they ended.
-/

namespace HeaderReflect

/-- The trees of headers under each fingerprint. -/
abbrev Outcomes := String → Trees

namespace Generator

theorem mem_of_mem_stampAll {fs : FileSystem} {files : List String} {c : Candidate}
    (h : c ∈ (stampAll fs files).1) : c.path ∈ files := by
  induction files with
  | nil => cases h
  | cons path rest ih =>
    simp only [stampAll] at h
    cases hstat : fs.stat path with
    | error e =>
      rw [hstat] at h
      exact List.mem_cons_of_mem _ (ih h)
    | ok e =>
      rw [hstat] at h
      rcases List.mem_cons.mp h with rfl | h
      · exact List.mem_cons_self ..
      · exact List.mem_cons_of_mem _ (ih h)

/-- Visits of the headers give what fingerprint, key and stamp decide. -/
def Follows (g : Generator) (outcomes : Outcomes) (fs : FileSystem) (files : List String) : Prop :=
  ∀ c ∈ (stampAll fs files).1,
    Refresh.settle (g.visit fs c.path) = outcomes g.fingerprint (Path.key c.path) c.stamp

theorem visit_of_text {g : Generator} {fs : FileSystem} {path text : String}
    (h : (fs.readText path).toOption = some text) :
    g.visit fs path = visitSource g.cursors g.config.marker path text := by
  unfold visit
  cases hread : fs.readText path with
  | error e => rw [hread] at h; cases h
  | ok found => rw [hread] at h; cases h; rfl

/-- The same generator with a store of its own, not looking at what is there. -/
def forced (g : Generator) (place : CachePlace) : Generator :=
  { g with force := true, cachePlace := place }

/-- The entries that a forced run arrives at, unless a visit fails fatally. -/
def forcedEntries? (g : Generator) (fs : FileSystem) (files : List String) : Option Entries :=
  Refresh.outcome? ((Cache.empty g.fingerprint).refresh (g.visit fs) (stampAll fs files).1)

/-- The blob that a forced run sets out to save. -/
def forcedBlob? (g : Generator) (fs : FileSystem) (files : List String) : Option Bytes :=
  (g.forcedEntries? fs files).map fun entries => Blob.ofCache ⟨g.fingerprint, entries⟩

end Generator

/-- The worlds that runs on one store lead to. In the beginning nothing is stored, and between runs
anything but the blob may change. -/
inductive Reached (place : CachePlace) (outcomes : Outcomes) : World → Prop where
  | start {w : World} (hblob : place.blob? w = none) : Reached place outcomes w
  | meanwhile {v w : World} (hv : Reached place outcomes v)
      (hblob : place.blob? w = place.blob? v) : Reached place outcomes w
  | run {w : World} {g : Generator} {files : List String} (hw : Reached place outcomes w)
      (hplace : g.cachePlace = place) (hfollows : g.Follows outcomes w.files files) :
      Reached place outcomes (g.run w files).world

/-- Nothing is stored, or a cache with the entries that its fingerprint decides. -/
def Sound (outcomes : Outcomes) (blob? : Option Bytes) : Prop :=
  blob? = none ∨
    ∃ c : Cache, blob? = some (Blob.ofCache c) ∧ c.entries.Sorted ∧
      c.entries.Agree (outcomes c.fingerprint)

/-- A loaded blob that gives a cache was decoded. -/
theorem decode_of_ofLoaded {loaded : Except CacheError Bytes} {stored : Cache}
    (h : Cache.ofLoaded loaded = .ok (some stored)) :
    ∃ blob, loaded = .ok blob ∧ Blob.decode blob = .ok stored := by
  unfold Cache.ofLoaded at h
  split at h
  · cases h
  · rename_i blob _
    refine ⟨blob, rfl, ?_⟩
    cases hd : Blob.decode blob with
    | error e => rw [hd] at h; cases h
    | ok c => rw [hd] at h; cases h; rfl
  · cases h
  · cases h

/-- A start from the stored form of a cache is one from nothing or from that cache. -/
theorem Cache.startFrom_cases {fingerprint : String} {loaded : Except CacheError Bytes}
    {c cache : Cache} {warnings : List Warning} (hs : c.entries.Sorted)
    (hloaded : ∀ blob, loaded = .ok blob → blob = Blob.ofCache c)
    (hstart : Cache.startFrom fingerprint loaded = .ok (cache, warnings)) :
    cache = Cache.empty fingerprint ∨ cache = c ∧ c.fingerprint = fingerprint := by
  unfold Cache.startFrom at hstart
  split at hstart
  · rename_i stored hstored
    cases hstart
    obtain ⟨blob, hblob, hdecode⟩ := decode_of_ofLoaded hstored
    rw [hloaded blob hblob, Blob.decode_ofCache c hs] at hdecode
    split at hdecode
    · cases hdecode
    · cases hdecode
      unfold Cache.adopt
      split_ifs with hfp
      · exact .inr ⟨rfl, hfp⟩
      · exact .inl rfl
  · cases hstart
    exact .inl rfl
  · cases hstart
    exact .inl rfl
  · cases hstart

theorem Generator.startCache_of_force {g : Generator} (hforce : g.force = true) (w : World) :
    g.startCache w = (.ok (Cache.empty g.fingerprint, []), w) := by
  rw [startCache, if_pos hforce]

/-- From the stored form of a cache, or without one, a run starts with nothing or that cache. -/
theorem Generator.startCache_cases {g : Generator} {w : World} {c cache : Cache}
    {warnings : List Warning} (hs : c.entries.Sorted)
    (hblob : ∀ blob, g.cachePlace.blob? w = some blob → blob = Blob.ofCache c)
    (hstart : (g.startCache w).1 = .ok (cache, warnings)) :
    cache = Cache.empty g.fingerprint ∨ cache = c ∧ c.fingerprint = g.fingerprint := by
  obtain ⟨-, -, hloaded⟩ := g.cachePlace.load_spec w
  by_cases hforce : g.force = true
  · rw [startCache_of_force hforce] at hstart
    obtain ⟨rfl, -⟩ := Prod.mk.inj (Except.ok.inj hstart)
    exact .inl rfl
  · rw [startCache, if_neg hforce] at hstart
    exact Cache.startFrom_cases hs (fun blob h => hblob blob (hloaded blob h)) hstart

theorem Generator.startCache_of_some {g : Generator} {w : World} {c cache : Cache}
    {warnings : List Warning} (hs : c.entries.Sorted)
    (hblob : g.cachePlace.blob? w = some (Blob.ofCache c))
    (hstart : (g.startCache w).1 = .ok (cache, warnings)) :
    cache = Cache.empty g.fingerprint ∨ cache = c ∧ c.fingerprint = g.fingerprint := by
  refine startCache_cases hs (fun blob hb => ?_) hstart
  exact Option.some.inj (hb.symm.trans hblob)

theorem Generator.startCache_of_none {g : Generator} {w : World} {cache : Cache}
    {warnings : List Warning} (hblob : g.cachePlace.blob? w = none)
    (hstart : (g.startCache w).1 = .ok (cache, warnings)) : cache = Cache.empty g.fingerprint := by
  have hsorted : (Cache.empty g.fingerprint).entries.Sorted := .nil
  have hnone (blob : Bytes) (hb : g.cachePlace.blob? w = some blob) :
      blob = Blob.ofCache (Cache.empty g.fingerprint) := by
    rw [hblob] at hb
    cases hb
  rcases startCache_cases hsorted hnone hstart with hcache | ⟨hcache, -⟩
  · exact hcache
  · exact hcache

/-- From a sound store a run starts with entries that its fingerprint decides. -/
theorem Sound.startCache {outcomes : Outcomes} {g : Generator} {w : World} {cache : Cache}
    {warnings : List Warning} (h : Sound outcomes (g.cachePlace.blob? w))
    (hstart : (g.startCache w).1 = .ok (cache, warnings)) :
    cache.entries.Agree (outcomes g.fingerprint) := by
  have hempty : (Cache.empty g.fingerprint).entries.Agree (outcomes g.fingerprint) := .nil _
  rcases h with hnone | ⟨c, hc, hsorted, hagree⟩
  · rw [Generator.startCache_of_none hnone hstart]
    exact hempty
  · rcases Generator.startCache_of_some hsorted hc hstart with rfl | ⟨rfl, hfp⟩
    · exact hempty
    · exact hfp ▸ hagree

namespace Generator

/-- The entries of a run from a sound store are those gathered from scratch. -/
theorem Done.gather_eq {g : Generator} {w after : World} {files : List String} {r : Refresh}
    {s : RunSummary} {outcomes : Outcomes} (hdone : g.Done w files r s after)
    (hsound : Sound outcomes (g.cachePlace.blob? w)) (hfollows : g.Follows outcomes w.files files) :
    Entries.gather (outcomes g.fingerprint) [] (stampAll w.files files).1 = some r.entries := by
  obtain ⟨cache, warnings, hstart, hrefresh⟩ := hdone.refreshed
  have hsteps := Refresh.gather_eq_steps (r := { prior := cache.entries })
    (hsound.startCache hstart) hfollows
  rw [← hsteps]
  show Refresh.outcome? (cache.refresh (g.visit w.files) (stampAll w.files files).1) = _
  rw [hrefresh]
  rfl

/-- **A run keeps the store sound**, whether it succeeds or not. -/
theorem sound_run {g : Generator} {outcomes : Outcomes} {w : World} {files : List String}
    (hsound : Sound outcomes (g.cachePlace.blob? w)) (hfollows : g.Follows outcomes w.files files) :
    Sound outcomes (g.cachePlace.blob? (g.run w files).world) := by
  rcases g.run_cases w files with ⟨_, r, -, hdone⟩ | ⟨_, _, -, hstopped⟩
  · have hgather := hdone.gather_eq hsound hfollows
    obtain ⟨hsorted, hagree⟩ := Entries.gather_invariant .nil (.nil _) hgather
    exact .inr ⟨⟨g.fingerprint, r.entries⟩, hdone.blob, hsorted, hagree⟩
  · rw [hstopped.blob]
    exact hsound

/-- A forced run arrives at what is gathered from scratch. -/
theorem forcedEntries?_eq {g : Generator} {outcomes : Outcomes} {fs : FileSystem}
    {files : List String} (hfollows : g.Follows outcomes fs files) :
    g.forcedEntries? fs files =
      Entries.gather (outcomes g.fingerprint) [] (stampAll fs files).1 :=
  Refresh.gather_eq_steps (r := { prior := [] }) (Entries.Agree.nil _) hfollows

theorem fingerprint_forced (g : Generator) (place : CachePlace) :
    (g.forced place).fingerprint = g.fingerprint := rfl

theorem visit_forced (g : Generator) (place : CachePlace) : (g.forced place).visit = g.visit := rfl

/-- What a forced run that succeeds has refreshed are the entries it arrives at. -/
theorem Done.forcedEntries?_eq {g : Generator} {place : CachePlace} {w after : World}
    {files : List String} {r : Refresh} {s : RunSummary}
    (hdone : (g.forced place).Done w files r s after) :
    g.forcedEntries? w.files files = some r.entries := by
  obtain ⟨cache, warnings, hstart, hrefresh⟩ := hdone.refreshed
  rw [startCache_of_force rfl, fingerprint_forced] at hstart
  obtain ⟨rfl, -⟩ := Prod.mk.inj (Except.ok.inj hstart)
  rw [visit_forced] at hrefresh
  rw [forcedEntries?, hrefresh]
  rfl

end Generator

theorem Reached.sound {place : CachePlace} {outcomes : Outcomes} {w : World}
    (h : Reached place outcomes w) : Sound outcomes (place.blob? w) := by
  induction h with
  | start hblob => exact .inl hblob
  | meanwhile _ hblob ih => exact hblob ▸ ih
  | run _ hplace hfollows ih =>
    subst hplace
    exact Generator.sound_run ih hfollows

/-- **The stored blob is that of a forced run.** After any run that succeeds in a history of runs on
one store, the blob is the one that a forced run of the same generator sets out to save, and the one
it has saved wherever it succeeds over headers with the same stamps. -/
theorem Reached.blob_eq_forced {place : CachePlace} {outcomes : Outcomes} {w : World}
    (hw : Reached place outcomes w) {g : Generator} (hplace : g.cachePlace = place)
    {files : List String} (hfollows : g.Follows outcomes w.files files) {s : RunSummary}
    (hrun : (g.run w files).result = .ok s) :
    ∃ blob, place.blob? (g.run w files).world = some blob ∧
      g.forcedBlob? w.files files = some blob ∧
      ∀ (other : CachePlace) (v : World) (t : RunSummary),
        (Generator.stampAll v.files files).1 = (Generator.stampAll w.files files).1 →
        g.Follows outcomes v.files files → ((g.forced other).run v files).result = .ok t →
        other.blob? ((g.forced other).run v files).world = some blob := by
  subst hplace
  obtain ⟨r, hdone⟩ := Generator.run_ok hrun
  have hgather := hdone.gather_eq hw.sound hfollows
  refine ⟨Blob.ofCache ⟨g.fingerprint, r.entries⟩, hdone.blob, ?_, ?_⟩
  · rw [Generator.forcedBlob?, Generator.forcedEntries?_eq hfollows, hgather]
    rfl
  · intro other v t hstamps hv hforced
    obtain ⟨q, hq⟩ := Generator.run_ok hforced
    have hentries : some q.entries = some r.entries := by
      rw [← hq.forcedEntries?_eq, Generator.forcedEntries?_eq hv, hstamps, hgather]
    have hblob := hq.blob
    rw [Option.some.inj hentries, Generator.fingerprint_forced] at hblob
    exact hblob

/-! ## A header that is touched -/

namespace Sample

def config : Config where
  parseDir := "."
  cacheDir := "cache"
  reflOutputDir := "/refl"
  bindingOutputDir := "binding"
  includeDir := "."
  marker := "REFL"
  headerExtensions := ["h"]
  clangArgs := []
  memberPrefix := "m_"
  templateDir := none

/-- Every header declares one enumeration. -/
def cursors : CursorSource := fun path =>
  .ok ((Cursor.unit path).append
    [(Cursor.enumDecl "Color" ["red"]).annotate "nickel(refl)"]).located

def generator : Generator where
  config := config
  renderer := jsonRenderer
  cursors := cursors
  cachePlace := .inMemory

/-- A header in the root and one in the working directory, this one changed at the given time. -/
def headers (time : Time) : FileSystem where
  entries :=
    [([], .directory 0), (["work"], .directory 0), (["a.h"], .file (Text.utf8 "REFL") 1),
     (["work", "b.h"], .file (Text.utf8 "REFL") time)]
  working := ["work"]
  clock := time + 1

def paths : List String := ["/a.h", "b.h"]

def outcomes : Outcomes := fun _ key _ =>
  Refresh.settle (visitSource cursors config.marker key "REFL")

/-- Where the texts of the headers are there, visits give what is decided for them. -/
theorem follows_of_texts {fs : FileSystem}
    (h : ∀ path ∈ paths, (fs.readText path).toOption = some "REFL") :
    generator.Follows outcomes fs paths := by
  intro c hc
  have hpath : c.path ∈ paths := Generator.mem_of_mem_stampAll hc
  have hkey : Path.key c.path = c.path := (by decide : ∀ p ∈ paths, Path.key p = p) c.path hpath
  have htext := h c.path hpath
  have hvisit : generator.visit fs c.path = visitSource cursors config.marker c.path "REFL" :=
    Generator.visit_of_text htext
  rw [hvisit, outcomes, hkey]

theorem follows (time : Time) : generator.Follows outcomes (headers time) paths := by
  refine follows_of_texts fun path hpath => ?_
  simp only [paths, List.mem_cons, List.not_mem_nil, or_false] at hpath
  rcases hpath with rfl | rfl
  · rfl
  · rfl

/-- The second header is changed later. -/
def touch (w : World) : World := { w with files := headers 2000000000 }

theorem blob?_touch (w : World) : CachePlace.inMemory.blob? (touch w) = CachePlace.inMemory.blob? w :=
  rfl

/-- What a first run leaves. -/
def first : World := (generator.run { files := headers 2 } paths).world

/-- The same with the second header changed since. -/
def touched : World := touch first

theorem reached_touched : Reached .inMemory outcomes touched := by
  have hstart : Reached .inMemory outcomes { files := headers 2 } := .start rfl
  exact .meanwhile (.run hstart rfl (follows 2)) (blob?_touch _)

theorem run_touched :
    (generator.run touched paths).result = .ok { visited := 1, reused := 1, written := 8 } :=
  toOption_eq_some_iff.mp (by decide +kernel)

end Sample

/-- One entry is carried over, the other one is derived anew, and the blob is that of a forced
run. -/
theorem Reached.blob_eq_forced_touched :
    ∃ s, (Sample.generator.run Sample.touched Sample.paths).result = .ok s ∧ s.reused = 1 ∧
    ∃ blob, CachePlace.inMemory.blob? (Sample.generator.run Sample.touched Sample.paths).world =
        some blob ∧
      Sample.generator.forcedBlob? Sample.touched.files Sample.paths = some blob ∧
      ∀ (other : CachePlace) (v : World) (t : RunSummary),
        (Generator.stampAll v.files Sample.paths).1 =
          (Generator.stampAll Sample.touched.files Sample.paths).1 →
        Sample.generator.Follows Sample.outcomes v.files Sample.paths →
        ((Sample.generator.forced other).run v Sample.paths).result = .ok t →
        other.blob? ((Sample.generator.forced other).run v Sample.paths).world = some blob := by
  have hfollows : Sample.generator.Follows Sample.outcomes Sample.touched.files Sample.paths :=
    Sample.follows 2000000000
  have hblob := Sample.reached_touched.blob_eq_forced rfl hfollows Sample.run_touched
  exact ⟨_, Sample.run_touched, rfl, hblob⟩

end HeaderReflect
