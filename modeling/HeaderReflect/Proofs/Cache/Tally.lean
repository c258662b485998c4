import HeaderReflect.Proofs.Cache.Refresh
import Mathlib.Data.Finset.Card

/-!
The tally of a refresh: what it has entered, visited and counted, told from the candidates alone. Of
each key the first candidate counts (`firsts`), and it is treated by the old entry of its key as if
it were the only one (`entryOf`). One step keeps the tally (`Tally.step`), so it holds at the end of
a refresh (`Cache.tally_of_refresh`), which succeeds exactly if every candidate that counts gets an
entry (`Cache.refresh_ok_iff`). None of this depends on the order of candidates with different keys.
-/

namespace HeaderReflect

/-! ## The candidates that count -/

namespace Candidate

def keys (cs : List Candidate) : List String := cs.map fun c => Path.key c.path

/-- Of each key the first candidate. -/
def firsts : List Candidate → List Candidate
  | [] => []
  | c :: rest => c :: (firsts rest).filter fun d => Path.key d.path ≠ Path.key c.path

theorem keys_append (cs ds : List Candidate) : keys (cs ++ ds) = keys cs ++ keys ds :=
  List.map_append

theorem mem_keys_firsts {cs : List Candidate} {key : String} :
    key ∈ keys (firsts cs) ↔ key ∈ keys cs := by
  induction cs with
  | nil => rfl
  | cons c rest ih =>
    simp only [keys, firsts, List.map_cons, List.mem_cons, List.mem_map, List.mem_filter,
      decide_eq_true_eq] at ih ⊢
    by_cases hkey : key = Path.key c.path
    · simp [hkey]
    · simp only [hkey, false_or, ← ih]
      constructor
      · rintro ⟨d, ⟨hd, -⟩, rfl⟩
        exact ⟨d, hd, rfl⟩
      · rintro ⟨d, hd, rfl⟩
        exact ⟨d, ⟨hd, hkey⟩, rfl⟩

theorem nodup_keys_firsts (cs : List Candidate) : (keys (firsts cs)).Nodup := by
  induction cs with
  | nil => exact List.nodup_nil
  | cons c rest ih =>
    have hrest : (keys ((firsts rest).filter fun d => Path.key d.path ≠ Path.key c.path)).Nodup :=
      ih.sublist (List.filter_sublist.map _)
    refine List.nodup_cons.mpr ⟨fun hmem => ?_, hrest⟩
    obtain ⟨d, hd, hkey⟩ := List.mem_map.mp hmem
    exact absurd hkey (by simpa using (List.mem_filter.mp hd).2)

theorem length_firsts (cs : List Candidate) : (firsts cs).length = (keys cs).toFinset.card := by
  have hsame : (keys cs).toFinset = (keys (firsts cs)).toFinset := by
    ext key
    rw [List.mem_toFinset, List.mem_toFinset, mem_keys_firsts]
  rw [hsame, List.toFinset_card_of_nodup (nodup_keys_firsts cs), keys, List.length_map]

/-- One more candidate counts if its key is new. -/
theorem firsts_concat (cs : List Candidate) (c : Candidate) :
    firsts (cs ++ [c]) =
      if Path.key c.path ∈ keys cs then firsts cs else firsts cs ++ [c] := by
  induction cs with
  | nil => rfl
  | cons d rest ih =>
    rw [List.cons_append, firsts, ih]
    by_cases hd : Path.key c.path = Path.key d.path
    · have hmem : Path.key c.path ∈ keys (d :: rest) := by simp [keys, hd]
      rw [if_pos hmem, firsts]
      split_ifs
      · rfl
      · rw [List.filter_append]
        simp [hd]
    · have hiff : Path.key c.path ∈ keys (d :: rest) ↔ Path.key c.path ∈ keys rest := by
        simp [keys, hd]
      simp only [hiff, firsts]
      split_ifs
      · rfl
      · rw [List.filter_append]
        simp [hd]

/-- More candidates behind others take none of them away. -/
theorem firsts_prefix_append (cs ds : List Candidate) : firsts cs <+: firsts (cs ++ ds) := by
  induction ds using List.reverseRecOn with
  | nil => rw [List.append_nil]
  | append_singleton ds d ih =>
    rw [← List.append_assoc, firsts_concat]
    split_ifs
    · exact ih
    · exact ih.trans (List.prefix_append ..)

theorem firsts_of_nodup {cs : List Candidate} (h : (keys cs).Nodup) : firsts cs = cs := by
  induction cs with
  | nil => rfl
  | cons c rest ih =>
    obtain ⟨hnot, hrest⟩ : Path.key c.path ∉ keys rest ∧ (keys rest).Nodup := List.nodup_cons.mp h
    rw [firsts, ih hrest, List.filter_eq_self.mpr]
    intro d hd
    have hmem : Path.key d.path ∈ keys rest := List.mem_map_of_mem hd
    have hne : Path.key d.path ≠ Path.key c.path := fun heq => hnot (heq ▸ hmem)
    simpa using hne

end Candidate

open Candidate (keys firsts)

/-! ## What becomes of a candidate -/

namespace Entries

/-- The entry of a candidate that still holds. -/
def holding? (entries : Entries) (c : Candidate) : Option CacheEntry :=
  (entries.find? (Path.key c.path)).filter (·.stamp = c.stamp)

theorem holding?_eq_some {entries : Entries} {c : Candidate} {entry : CacheEntry}
    (hfind : entries.find? (Path.key c.path) = some entry) (hstamp : entry.stamp = c.stamp) :
    entries.holding? c = some entry := by
  rw [holding?, hfind, Option.filter_some, if_pos (by simpa using hstamp)]

/-- The entry that a candidate gets; it gets none if its visit fails fatally. -/
def entryOf (prior : Entries) (visit : String → Except VisitError Decl) (c : Candidate) :
    Option CacheEntry :=
  (prior.holding? c).or ((Refresh.settle (visit c.path)).map fun root => { stamp := c.stamp, root })

/-- Whichever way it came, the entry bears the stamp of its candidate. -/
theorem stamp_of_entryOf {prior : Entries} {visit : String → Except VisitError Decl}
    {c : Candidate} {entry : CacheEntry} (h : prior.entryOf visit c = some entry) :
    entry.stamp = c.stamp := by
  rw [entryOf, Option.or_eq_some_iff] at h
  rcases h with hold | ⟨-, hvisited⟩
  · simpa using (Option.filter_eq_some_iff.mp hold).2
  · obtain ⟨root, -, rfl⟩ := Option.map_eq_some_iff.mp hvisited
    rfl

/-- The entries of all keys but the given ones. -/
def without (entries : Entries) (ks : List String) : Entries := entries.filter (·.1 ∉ ks)

theorem find?_without (entries : Entries) (ks : List String) {key : String} (h : key ∉ ks) :
    (entries.without ks).find? key = entries.find? key := by
  induction entries with
  | nil => rfl
  | cons e rest ih =>
    obtain ⟨k, entry⟩ := e
    by_cases hk : k ∈ ks
    · have hdrop : without ((k, entry) :: rest) ks = without rest ks := by simp [without, hk]
      have hne : key ≠ k := fun heq => h (heq ▸ hk)
      rw [hdrop, ih, find?_cons, if_neg hne]
    · have hkeep : without ((k, entry) :: rest) ks = (k, entry) :: without rest ks := by
        simp [without, hk]
      rw [hkeep, find?_cons, find?_cons, ih]

theorem erase_without (entries : Entries) (ks : List String) (key : String) :
    (entries.without ks).erase key = entries.without (ks ++ [key]) := by
  unfold without erase
  rw [List.filter_filter]
  apply List.filter_congr
  intro e _
  simp [and_comm]

theorem without_of_mem (entries : Entries) {ks : List String} {key : String} (h : key ∈ ks) :
    entries.without (ks ++ [key]) = entries.without ks := by
  apply List.filter_congr
  intro e _
  have hiff : e.1 ∈ ks ++ [key] ↔ e.1 ∈ ks := by
    rw [List.mem_append, List.mem_singleton, or_iff_left_of_imp]
    rintro rfl
    exact h
  simp only [hiff]

end Entries

/-- Whether a visit ends with an error. -/
def isFailure (visit : String → Except VisitError Decl) (c : Candidate) : Bool :=
  (visit c.path).toOption.isNone

/-- How a refresh from the old entries stands after the given candidates. -/
structure Tally (prior : Entries) (visit : String → Except VisitError Decl) (cs : List Candidate)
    (r : Refresh) : Prop where
  entered : ∀ c ∈ firsts cs, ∃ entry,
    prior.entryOf visit c = some entry ∧ r.entries.find? (Path.key c.path) = some entry
  others : ∀ key, key ∉ keys cs → r.entries.find? key = none
  left : r.prior = prior.without (keys cs)
  visited : r.visited = ((firsts cs).filter fun c => (prior.holding? c).isNone).map (·.path)
  reused : r.reused = ((firsts cs).filter fun c => (prior.holding? c).isSome).length
  failed : r.failed =
    ((firsts cs).filter fun c => (prior.holding? c).isNone && isFailure visit c).length

namespace Tally

variable {prior : Entries} {visit : String → Except VisitError Decl} {cs : List Candidate}
  {r s : Refresh} {c : Candidate}

theorem start (prior : Entries) (visit : String → Except VisitError Decl) :
    Tally prior visit [] { prior } where
  entered := nofun
  others _ _ := rfl
  left := (List.filter_eq_self.mpr fun _ _ => by simp [keys]).symm
  visited := rfl
  reused := rfl
  failed := rfl

/-- The keys that are entered are those of the candidates. -/
theorem contains_iff (h : Tally prior visit cs r) (key : String) :
    r.entries.contains key = true ↔ key ∈ keys cs := by
  constructor
  · intro hcontains
    by_contra hnot
    rw [Entries.contains, h.others key hnot] at hcontains
    cases hcontains
  · intro hmem
    obtain ⟨c, hc, rfl⟩ := List.mem_map.mp (Candidate.mem_keys_firsts.mpr hmem)
    obtain ⟨entry, -, hfind⟩ := h.entered c hc
    rw [Entries.contains, hfind]
    rfl

/-- As long as its key is new, the old entry of a candidate is still to be had. -/
theorem reusable?_eq (h : Tally prior visit cs r) (hnew : Path.key c.path ∉ keys cs) :
    r.reusable? c = prior.holding? c := by
  rw [Refresh.reusable?, Entries.holding?, h.left, Entries.find?_without _ _ hnew]

/-- A candidate with a new key counts. -/
theorem fresh (h : Tally prior visit cs r) (hnew : Path.key c.path ∉ keys cs)
    {entry : CacheEntry} (hentry : prior.entryOf visit c = some entry)
    (hentries : s.entries = Entries.insert (Path.key c.path) entry r.entries)
    (hleft : s.prior = r.prior.erase (Path.key c.path))
    (hvisited : s.visited =
      r.visited ++ ([c].filter fun c => (prior.holding? c).isNone).map (·.path))
    (hreused : s.reused = r.reused + ([c].filter fun c => (prior.holding? c).isSome).length)
    (hfailed : s.failed = r.failed +
      ([c].filter fun c => (prior.holding? c).isNone && isFailure visit c).length) :
    Tally prior visit (cs ++ [c]) s := by
  have hkeys : keys (cs ++ [c]) = keys cs ++ [Path.key c.path] := Candidate.keys_append cs [c]
  have hfirsts : firsts (cs ++ [c]) = firsts cs ++ [c] := by
    rw [Candidate.firsts_concat, if_neg hnew]
  constructor
  · intro d hd
    rw [hfirsts] at hd
    rw [hentries]
    rcases List.mem_append.mp hd with hold | hlast
    · obtain ⟨old, hof, hfind⟩ := h.entered d hold
      have hmem : Path.key d.path ∈ keys cs :=
        Candidate.mem_keys_firsts.mp (List.mem_map_of_mem hold)
      have hne : Path.key d.path ≠ Path.key c.path := fun heq => hnew (heq ▸ hmem)
      exact ⟨old, hof, by rw [Entries.find?_insert, if_neg hne, hfind]⟩
    · obtain rfl := List.mem_singleton.mp hlast
      exact ⟨entry, hentry, by rw [Entries.find?_insert, if_pos rfl]⟩
  · intro key hkey
    rw [hkeys, List.mem_append, not_or, List.mem_singleton] at hkey
    rw [hentries, Entries.find?_insert, if_neg hkey.2]
    exact h.others key hkey.1
  · rw [hkeys, ← Entries.erase_without, ← h.left, hleft]
  · rw [hfirsts, List.filter_append, List.map_append, ← h.visited, hvisited]
  · rw [hfirsts, List.filter_append, List.length_append, ← h.reused, hreused]
  · rw [hfirsts, List.filter_append, List.length_append, ← h.failed, hfailed]

/-- **One candidate more keeps the tally.** -/
theorem step (h : Tally prior visit cs r) (htaken : Refresh.Taken visit r c s none) :
    Tally prior visit (cs ++ [c]) s := by
  have hfresh (hnot : r.entries.contains (Path.key c.path) = false) :
      Path.key c.path ∉ keys cs := by
    intro hmem
    rw [(h.contains_iff _).mpr hmem] at hnot
    cases hnot
  cases htaken with
  | known hknown =>
    have hmem := (h.contains_iff _).mp hknown
    have hkeys : keys (cs ++ [c]) = keys cs ++ [Path.key c.path] := Candidate.keys_append cs [c]
    have hsame : firsts (cs ++ [c]) = firsts cs := by rw [Candidate.firsts_concat, if_pos hmem]
    obtain ⟨hentered, hothers, hleft, hvisited, hreused, hfailed⟩ := h
    rw [← hsame] at hentered hvisited hreused hfailed
    refine ⟨hentered, fun key hkey => ?_, ?_, hvisited, hreused, hfailed⟩
    · rw [hkeys, List.mem_append, not_or] at hkey
      exact hothers key hkey.1
    · rw [hkeys, Entries.without_of_mem _ hmem]
      exact hleft
  | @reused entry hnot hprior =>
    have hnew := hfresh hnot
    rw [h.reusable?_eq hnew] at hprior
    have hentry : prior.entryOf visit c = some entry := by
      rw [Entries.entryOf, hprior]
      rfl
    apply h.fresh hnew hentry rfl rfl
    · simp [Refresh.reuse, hprior]
    · simp [Refresh.reuse, hprior]
    · simp [Refresh.reuse, hprior]
  | @visited root hnot hprior hvisit =>
    have hnew := hfresh hnot
    rw [h.reusable?_eq hnew] at hprior
    have hentry : prior.entryOf visit c =
        some { stamp := c.stamp, root := Refresh.kept root } := by
      rw [Entries.entryOf, hprior, hvisit]
      rfl
    apply h.fresh hnew hentry rfl rfl
    · simp [Refresh.enter, Refresh.note, hprior]
    · simp [Refresh.enter, Refresh.note, hprior]
    · simp [Refresh.enter, Refresh.note, hprior, isFailure, hvisit, Except.toOption]
  | @failed e hnot hprior hvisit hrecoverable =>
    have hnew := hfresh hnot
    rw [h.reusable?_eq hnew] at hprior
    have hentry : prior.entryOf visit c = some { stamp := c.stamp, root := .emptyRoot } := by
      rw [Entries.entryOf, hprior, hvisit, Refresh.settle, if_pos hrecoverable]
      rfl
    apply h.fresh hnew hentry rfl rfl
    · simp [Refresh.enterFailed, Refresh.enter, Refresh.note, hprior]
    · simp [Refresh.enterFailed, Refresh.enter, Refresh.note, hprior]
    · simp [Refresh.enterFailed, Refresh.enter, Refresh.note, hprior, isFailure, hvisit,
        Except.toOption]

/-- Where a candidate ends the refresh, its key is new and it gets no entry. -/
theorem fatal (h : Tally prior visit cs r) {e : VisitError}
    (htaken : Refresh.Taken visit r c s (some e)) :
    Path.key c.path ∉ keys cs ∧ prior.entryOf visit c = none := by
  cases htaken with
  | fatal hnot hprior hvisit hrecoverable =>
    have hnew : Path.key c.path ∉ keys cs := by
      intro hmem
      rw [(h.contains_iff _).mpr hmem] at hnot
      cases hnot
    rw [h.reusable?_eq hnew] at hprior
    refine ⟨hnew, ?_⟩
    rw [Entries.entryOf, hprior, hvisit, Refresh.settle, hrecoverable]
    rfl

/-- The tally is kept along all candidates. Where one of them ends the refresh, the first of its key
gets no entry. -/
theorem steps {ds : List Candidate} {fatal : Option VisitError} (h : Tally prior visit cs r)
    (hsteps : r.steps visit ds = (s, fatal)) :
    (fatal = none ∧ Tally prior visit (cs ++ ds) s) ∨
      (fatal ≠ none ∧ ∃ c ∈ firsts (cs ++ ds), prior.entryOf visit c = none) := by
  induction ds generalizing cs r with
  | nil =>
    cases hsteps
    rw [List.append_nil]
    exact .inl ⟨rfl, h⟩
  | cons c rest ih =>
    have htaken := Refresh.taken_step visit r c
    have happend : cs ++ c :: rest = (cs ++ [c]) ++ rest := by simp
    unfold Refresh.steps at hsteps
    rw [happend]
    split at hsteps
    · rename_i t hstep
      rw [hstep] at htaken
      exact ih (h.step htaken) hsteps
    · rename_i t e hstep
      cases hsteps
      rw [hstep] at htaken
      obtain ⟨hnew, hnone⟩ := h.fatal htaken
      refine .inr ⟨by simp, c, ?_, hnone⟩
      apply (Candidate.firsts_prefix_append (cs ++ [c]) rest).subset
      rw [Candidate.firsts_concat, if_neg hnew]
      exact List.mem_append_right _ (List.mem_singleton_self c)

end Tally

/-! ## A whole refresh -/

namespace Cache

variable {cache : Cache} {visit : String → Except VisitError Decl} {cs ds : List Candidate}

/-- **What a refresh that succeeds has entered, visited and counted.** -/
theorem tally_of_refresh {r : Refresh} (h : cache.refresh visit cs = (r, none)) :
    Tally cache.entries visit cs r := by
  rcases (Tally.start cache.entries visit).steps h with ⟨-, htally⟩ | ⟨hfatal, -⟩
  · exact htally
  · exact absurd rfl hfatal

/-- **A refresh succeeds exactly if every candidate that counts gets an entry.** -/
theorem refresh_ok_iff :
    (cache.refresh visit cs).2 = none ↔
      ∀ c ∈ firsts cs, (cache.entries.entryOf visit c).isSome = true := by
  cases h : cache.refresh visit cs with
  | mk r fatal =>
    rcases (Tally.start cache.entries visit).steps h with ⟨hnone, htally⟩ | ⟨hfatal, c, hc, hnone⟩
    · refine iff_of_true hnone fun c hc => ?_
      obtain ⟨entry, hentry, -⟩ := htally.entered c hc
      rw [hentry]
      rfl
    · refine iff_of_false hfatal fun hall => ?_
      have hsome := hall c hc
      rw [hnone] at hsome
      cases hsome

/-- **The order of candidates with different keys makes no difference.** -/
theorem refresh_perm (hperm : cs.Perm ds) (hkeys : (keys cs).Nodup) :
    ((cache.refresh visit cs).2 = none ↔ (cache.refresh visit ds).2 = none) ∧
      ∀ r s, cache.refresh visit cs = (r, none) → cache.refresh visit ds = (s, none) →
        r.entries = s.entries ∧ r.report = s.report := by
  have hsame : (keys cs).Perm (keys ds) := hperm.map _
  have hcs := Candidate.firsts_of_nodup hkeys
  have hds := Candidate.firsts_of_nodup (hsame.nodup_iff.mp hkeys)
  constructor
  · rw [refresh_ok_iff, refresh_ok_iff, hcs, hds]
    simp only [hperm.mem_iff]
  · intro r s hr hs
    have htally := tally_of_refresh hr
    have hother := tally_of_refresh hs
    constructor
    · refine (sorted_of_refresh hr).ext (sorted_of_refresh hs) fun key => ?_
      by_cases hmem : key ∈ keys cs
      · obtain ⟨c, hc, rfl⟩ := List.mem_map.mp hmem
        obtain ⟨entry, hentry, hfind⟩ := htally.entered c (hcs.symm ▸ hc)
        obtain ⟨other, hof, hfound⟩ := hother.entered c (hds.symm ▸ hperm.mem_iff.mp hc)
        rw [hentry] at hof
        rw [hfind, hfound, hof]
      · rw [htally.others key hmem, hother.others key fun h => hmem (hsame.mem_iff.mpr h)]
    · have hleft : r.prior = s.prior := by
        rw [htally.left, hother.left]
        apply List.filter_congr
        intro e _
        simp only [hsame.mem_iff]
      have hvisited : r.visited.length = s.visited.length := by
        rw [htally.visited, hother.visited, hcs, hds, List.length_map, List.length_map]
        exact (hperm.filter _).length_eq
      have hreused : r.reused = s.reused := by
        rw [htally.reused, hother.reused, hcs, hds]
        exact (hperm.filter _).length_eq
      have hfailed : r.failed = s.failed := by
        rw [htally.failed, hother.failed, hcs, hds]
        exact (hperm.filter _).length_eq
      simp only [Refresh.report, hleft, hvisited, hreused, hfailed]

/-- **A second refresh over the same candidates carries all entries over**, whatever visits would
give now. -/
theorem refresh_again {prior : Entries} {before : String → Except VisitError Decl} {r : Refresh}
    (htally : Tally prior before cs r) (hsorted : r.entries.Sorted)
    (hcache : cache.entries = r.entries) :
    ∃ s, cache.refresh visit cs = (s, none) ∧ s.entries = r.entries ∧ s.visited = [] ∧
      s.report = { reused := (keys cs).toFinset.card } := by
  have hholding : ∀ c ∈ firsts cs, (cache.entries.holding? c).isSome = true := by
    intro c hc
    obtain ⟨entry, hentry, hfind⟩ := htally.entered c hc
    rw [hcache, Entries.holding?_eq_some hfind (Entries.stamp_of_entryOf hentry)]
    rfl
  have hnone : (cache.refresh visit cs).2 = none := by
    rw [refresh_ok_iff]
    intro c hc
    obtain ⟨entry, hentry⟩ := Option.isSome_iff_exists.mp (hholding c hc)
    rw [Entries.entryOf, hentry]
    rfl
  cases hrefresh : cache.refresh visit cs with
  | mk s fatal =>
    rw [hrefresh] at hnone
    obtain rfl : fatal = none := hnone
    have hagain := tally_of_refresh hrefresh
    have hvisited : s.visited = [] := by
      rw [hagain.visited, List.filter_eq_nil_iff.mpr, List.map_nil]
      intro c hc
      simp [Option.isNone_iff_eq_none, ← Option.isSome_iff_ne_none, hholding c hc]
    have hreused : s.reused = (keys cs).toFinset.card := by
      rw [hagain.reused, List.filter_eq_self.mpr hholding, Candidate.length_firsts]
    have hfailed : s.failed = 0 := by
      rw [hagain.failed, List.filter_eq_nil_iff.mpr, List.length_nil]
      intro c hc
      obtain ⟨entry, hentry⟩ := Option.isSome_iff_exists.mp (hholding c hc)
      simp [hentry]
    have hleft : s.prior = [] := by
      rw [hagain.left, hcache, Entries.without, List.filter_eq_nil_iff]
      rintro ⟨key, entry⟩ hmem
      have hcontains : r.entries.contains key = true := by
        rw [Entries.contains, hsorted.mem_iff.mp hmem]
        rfl
      simpa using (htally.contains_iff key).mp hcontains
    have hreport : s.report = { reused := (keys cs).toFinset.card } := by
      simp [Refresh.report, hvisited, hreused, hfailed, hleft]
    refine ⟨s, rfl, ?_, hvisited, hreport⟩
    rw [entries_of_unchanged hrefresh (hcache ▸ hsorted), hcache]
    rw [hreport]
    rfl

end Cache

end HeaderReflect
