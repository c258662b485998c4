import HeaderReflect.Proofs.Cache.Tally

/-!
A full account of a refresh. Which candidates are visited is told from the old entries alone
(`Entries.outdated`). A refresh ends with the error of the first of them whose visit is fatal, or
else with the entries, the calls and the counts of an `Account` (`Cache.refresh_account`). The calls
it notes are all that it makes: it gives the same with any other way of visiting that agrees on them
(`Refresh.steps_congr`).
-/

namespace HeaderReflect

open Candidate (keys firsts)

/-- The error of a visit that ends the refresh. -/
def fatalError? : Except VisitError Decl → Option VisitError
  | .ok _ => none
  | .error e => if e.isRecoverable then none else some e

/-- Whether a visit fails and the refresh goes on. -/
def failsRecoverably : Except VisitError Decl → Bool
  | .ok _ => false
  | .error e => e.isRecoverable

/-- The candidates to be visited, in order: of each key the first, unless the old entry of the key
bears its stamp. -/
def Entries.outdated (prior : Entries) (cs : List Candidate) : List Candidate :=
  (firsts cs).filter fun c => (prior.holding? c).isNone

/-- The first candidate of a key. -/
def Candidate.first? (cs : List Candidate) (key : String) : Option Candidate :=
  cs.find? fun c => Path.key c.path = key

theorem Candidate.mem_firsts_of_first? {cs : List Candidate} {key : String} {c : Candidate}
    (h : first? cs key = some c) : c ∈ firsts cs ∧ Path.key c.path = key := by
  have hkey : Path.key c.path = key := by simpa using List.find?_some h
  refine ⟨?_, hkey⟩
  induction cs with
  | nil => cases h
  | cons d rest ih =>
    rw [first?, List.find?_cons] at h
    split at h
    · cases h
      exact List.mem_cons_self ..
    · rename_i hd
      have hne : Path.key c.path ≠ Path.key d.path := by
        rw [hkey]
        exact fun heq => by simp [heq] at hd
      exact List.mem_cons_of_mem _ (List.mem_filter.mpr ⟨ih h, by simpa using hne⟩)

/-! ## The calls -/

namespace Refresh

variable {visit other : String → Except VisitError Decl}

theorem visited_step (r : Refresh) (c : Candidate) : r.visited <+: (r.step visit c).1.visited := by
  have htaken := taken_step visit r c
  generalize r.step visit c = taken at htaken ⊢
  obtain ⟨s, fatal⟩ := taken
  cases htaken with
  | known | reused => exact List.prefix_rfl
  | visited | failed | fatal => exact List.prefix_append ..

theorem visited_steps (r : Refresh) (cs : List Candidate) :
    r.visited <+: (r.steps visit cs).1.visited := by
  induction cs generalizing r with
  | nil => exact List.prefix_rfl
  | cons c rest ih =>
    have hstep : r.visited <+: (r.step visit c).1.visited := visited_step r c
    unfold steps
    split
    · rename_i s hs
      rw [hs] at hstep
      exact hstep.trans (ih s)
    · rename_i s e hs
      rw [hs] at hstep
      exact hstep

/-- A candidate is taken in alike if its visit, should there be one, ends alike. -/
theorem step_congr {r : Refresh} {c : Candidate}
    (h : c.path ∈ (r.step visit c).1.visited → other c.path = visit c.path) :
    r.step other c = r.step visit c := by
  unfold step at h ⊢
  split
  · rfl
  · rename_i hnew
    rw [if_neg hnew] at h
    cases hprior : r.reusable? c with
    | some entry => rfl
    | none =>
      rw [hprior] at h
      have hcall : c.path ∈ (r.note c).visited := by simp [note]
      have hsame : other c.path = visit c.path := by
        apply h
        cases visit c.path with
        | ok root => exact hcall
        | error e =>
          simp only
          split
          · exact hcall
          · exact hcall
      rw [hsame]

/-- **The noted calls are all calls.** With another way of visiting that agrees on them a refresh
takes the same course. -/
theorem steps_congr {r : Refresh} {cs : List Candidate}
    (h : ∀ path ∈ (r.steps visit cs).1.visited, other path = visit path) :
    r.steps other cs = r.steps visit cs := by
  induction cs generalizing r with
  | nil => rfl
  | cons c rest ih =>
    have hlater : (r.step visit c).1.visited <+: (r.steps visit (c :: rest)).1.visited := by
      unfold steps
      split
      · rename_i s hs
        rw [hs]
        exact visited_steps s rest
      · rename_i s e hs
        rw [hs]
    have hstep : r.step other c = r.step visit c :=
      step_congr fun hcall => h c.path (hlater.subset hcall)
    unfold steps at h ⊢
    rw [hstep]
    split
    · rename_i s hs
      rw [hs] at h
      exact ih h
    · rfl

end Refresh

/-! ## The error -/

namespace Tally

variable {prior : Entries} {visit : String → Except VisitError Decl} {cs : List Candidate}
  {r : Refresh}

/-- As long as a refresh goes on, no visit has been fatal. -/
theorem not_fatal (h : Tally prior visit cs r) :
    ∀ c ∈ prior.outdated cs, fatalError? (visit c.path) = none := by
  intro c hc
  obtain ⟨hfirst, hnone⟩ := List.mem_filter.mp hc
  obtain ⟨entry, hentry, -⟩ := h.entered c hfirst
  rw [Entries.entryOf, Option.isNone_iff_eq_none.mp hnone, Option.none_or] at hentry
  cases hvisit : visit c.path with
  | ok root => rfl
  | error e =>
    rw [hvisit, Refresh.settle] at hentry
    split at hentry
    · rename_i hrecoverable
      exact if_pos hrecoverable
    · cases hentry

/-- **A refresh ends with the first error that is fatal.** -/
theorem error_steps (h : Tally prior visit cs r) (ds : List Candidate) :
    (r.steps visit ds).2 =
      (prior.outdated (cs ++ ds)).findSome? fun c => fatalError? (visit c.path) := by
  induction ds generalizing cs r with
  | nil =>
    rw [List.append_nil]
    exact (List.findSome?_eq_none_iff.mpr h.not_fatal).symm
  | cons c rest ih =>
    have htaken := Refresh.taken_step visit r c
    have happend : cs ++ c :: rest = (cs ++ [c]) ++ rest := by simp
    unfold Refresh.steps
    rw [happend]
    split
    · rename_i s hstep
      rw [hstep] at htaken
      exact ih (h.step htaken)
    · rename_i s e hstep
      rw [hstep] at htaken
      obtain ⟨hnew, -⟩ := h.fatal htaken
      cases htaken with
      | fatal hnot hprior hvisit hrecoverable =>
        -- The candidates before `c` were not fatal, and those behind it are not looked at.
        obtain ⟨more, hmore⟩ := Candidate.firsts_prefix_append (cs ++ [c]) rest
        rw [Candidate.firsts_concat, if_neg hnew] at hmore
        rw [h.reusable?_eq hnew] at hprior
        have hbefore := List.findSome?_eq_none_iff.mpr h.not_fatal
        rw [Entries.outdated] at hbefore
        rw [Entries.outdated, ← hmore, List.filter_append, List.filter_append,
          List.findSome?_append, List.findSome?_append, hbefore]
        simp [hprior, hvisit, fatalError?, hrecoverable]

/-! ## The entries -/

/-- An old entry that still holds is kept. -/
theorem find?_of_holding (h : Tally prior visit cs r) {c : Candidate} {old : CacheEntry}
    (hc : c ∈ firsts cs) (hold : prior.holding? c = some old) :
    r.entries.find? (Path.key c.path) = some old := by
  obtain ⟨entry, hentry, hfind⟩ := h.entered c hc
  rw [Entries.entryOf, hold, Option.some_or] at hentry
  rw [hfind, hentry]

/-- Any other candidate gets what its visit has given. -/
theorem find?_of_outdated (h : Tally prior visit cs r) {c : Candidate}
    (hc : c ∈ prior.outdated cs) :
    (∃ tree, visit c.path = .ok tree ∧
        r.entries.find? (Path.key c.path) = some ⟨c.stamp, Refresh.kept tree⟩) ∨
      ∃ e, visit c.path = .error e ∧ e.isRecoverable = true ∧
        r.entries.find? (Path.key c.path) = some ⟨c.stamp, .emptyRoot⟩ := by
  obtain ⟨hfirst, hnone⟩ := List.mem_filter.mp hc
  obtain ⟨entry, hentry, hfind⟩ := h.entered c hfirst
  rw [Entries.entryOf, Option.isNone_iff_eq_none.mp hnone, Option.none_or] at hentry
  cases hvisit : visit c.path with
  | ok tree =>
    rw [hvisit] at hentry
    cases hentry
    exact .inl ⟨tree, rfl, hfind⟩
  | error e =>
    rw [hvisit, Refresh.settle] at hentry
    split at hentry
    · rename_i hrecoverable
      cases hentry
      exact .inr ⟨e, rfl, hrecoverable, hfind⟩
    · cases hentry

end Tally

/-- What a refresh that succeeds leaves, calls and counts, told from the old entries, the visits and
the candidates. -/
structure Account (prior : Entries) (visit : String → Except VisitError Decl)
    (cs : List Candidate) (r : Refresh) : Prop where
  /-- There is one entry for each key of the candidates, and no other. -/
  entered : r.entries.keys.Nodup ∧ r.entries.keys.toFinset = (keys cs).toFinset
  /-- An old entry with the stamp of the first candidate of its key is kept as it is. -/
  kept : ∀ key c old, Candidate.first? cs key = some c → prior.find? key = some old →
    old.stamp = c.stamp → r.entries.find? key = some old
  /-- Otherwise the entry has the candidate's stamp and the tree of its visit. -/
  renewed : ∀ key c, Candidate.first? cs key = some c →
    (∀ old, prior.find? key = some old → old.stamp ≠ c.stamp) →
      (∃ tree, visit c.path = .ok tree ∧
          r.entries.find? key = some ⟨c.stamp, if tree.children = [] then .emptyRoot else tree⟩) ∨
        ∃ e, visit c.path = .error e ∧ e.isRecoverable = true ∧
          r.entries.find? key = some ⟨c.stamp, .emptyRoot⟩
  /-- The calls in order, none of them twice for one key. -/
  calls : r.visited = (prior.outdated cs).map (·.path) ∧ (r.visited.map Path.key).Nodup
  /-- There are no other calls. -/
  onlyCalls : ∀ other : String → Except VisitError Decl,
    (∀ path ∈ r.visited, other path = visit path) → Refresh.steps other { prior } cs = (r, none)
  total : r.report.visited + r.report.reused = (keys cs).toFinset.card
  failed : r.report.failed = (prior.outdated cs).countP fun c => failsRecoverably (visit c.path)
  dropped : r.report.dropped = (prior.keys.toFinset \ (keys cs).toFinset).card
  unchanged : r.report.changed = false → r.entries = prior

namespace Entries

theorem Sorted.nodup_keys {entries : Entries} (h : entries.Sorted) : entries.keys.Nodup :=
  (List.pairwise_map.mpr h).imp ne_of_lt

theorem contains_iff_mem_keys {entries : Entries} {key : String} :
    entries.contains key = true ↔ key ∈ entries.keys := by
  induction entries with
  | nil => simp [contains, find?, keys]
  | cons e rest ih =>
    obtain ⟨k, entry⟩ := e
    rw [contains] at ih ⊢
    rw [find?_cons]
    by_cases h : key = k
    · simp [h, keys]
    · simpa [h, keys] using ih

/-- Old entries without those of some keys are as many as there are other keys. -/
theorem Sorted.length_without {entries : Entries} (h : entries.Sorted) (ks : List String) :
    (entries.without ks).length = (entries.keys.toFinset \ ks.toFinset).card := by
  have hkeys : (entries.without ks).keys = entries.keys.filter (· ∉ ks) := by
    rw [keys, without, keys, List.filter_map]
    rfl
  have hset : (entries.without ks).keys.toFinset = entries.keys.toFinset \ ks.toFinset := by
    ext key
    simp [hkeys]
  have hnodup : (entries.without ks).keys.Nodup := hkeys ▸ h.nodup_keys.filter _
  rw [← hset, List.toFinset_card_of_nodup hnodup, keys, List.length_map]

end Entries

namespace Tally

variable {prior : Entries} {visit : String → Except VisitError Decl} {cs : List Candidate}
  {r : Refresh}

/-- Every candidate that counts is visited or carried over. -/
theorem visited_add_reused (h : Tally prior visit cs r) :
    r.visited.length + r.reused = (keys cs).toFinset.card := by
  have hsplit := List.length_eq_length_filter_add (l := firsts cs) fun c => (prior.holding? c).isNone
  rw [h.visited, h.reused, List.length_map, ← Candidate.length_firsts, hsplit]
  simp

/-- The failures that are counted are the recoverable ones: had one been fatal, the refresh would
have ended with it. -/
theorem failed_eq (h : Tally prior visit cs r) :
    r.failed = (prior.outdated cs).countP fun c => failsRecoverably (visit c.path) := by
  have hsame : ∀ c ∈ prior.outdated cs, failsRecoverably (visit c.path) = isFailure visit c := by
    intro c hc
    have hnot := h.not_fatal c hc
    cases hvisit : visit c.path with
    | ok tree => simp [failsRecoverably, isFailure, hvisit, Except.toOption]
    | error e =>
      have hrecoverable : e.isRecoverable = true := by simpa [hvisit, fatalError?] using hnot
      simp [failsRecoverably, isFailure, hvisit, hrecoverable, Except.toOption]
  rw [List.countP_congr fun c hc => by rw [hsame c hc], h.failed, List.countP_eq_length_filter,
    Entries.outdated, List.filter_filter]
  simp only [Bool.and_comm]

end Tally

namespace Cache

variable {cache : Cache} {visit : String → Except VisitError Decl} {cs : List Candidate}

theorem account_of_refresh {r : Refresh} (hsorted : cache.entries.Sorted)
    (h : cache.refresh visit cs = (r, none)) : Account cache.entries visit cs r := by
  have htally := tally_of_refresh h
  constructor
  · refine ⟨(sorted_of_refresh h).nodup_keys, ?_⟩
    ext key
    rw [List.mem_toFinset, List.mem_toFinset, ← Entries.contains_iff_mem_keys, htally.contains_iff]
  · intro key c old hfirst hold hstamp
    obtain ⟨hc, rfl⟩ := Candidate.mem_firsts_of_first? hfirst
    exact htally.find?_of_holding hc (Entries.holding?_eq_some hold hstamp)
  · intro key c hfirst hstale
    obtain ⟨hc, rfl⟩ := Candidate.mem_firsts_of_first? hfirst
    have hnone : cache.entries.holding? c = none := by
      rw [Entries.holding?, Option.filter_eq_none_iff]
      exact fun old hold => by simpa using hstale old hold
    have houtdated : c ∈ cache.entries.outdated cs := List.mem_filter.mpr ⟨hc, by simp [hnone]⟩
    rcases htally.find?_of_outdated houtdated with ⟨tree, hvisit, hfind⟩ | hfailed
    · exact .inl ⟨tree, hvisit, by simpa [Refresh.kept, Decl.isEmpty] using hfind⟩
    · exact .inr hfailed
  · refine ⟨htally.visited, ?_⟩
    rw [htally.visited, List.map_map]
    exact (Candidate.nodup_keys_firsts cs).sublist (List.filter_sublist.map _)
  · intro other hother
    have hsteps : Refresh.steps visit { prior := cache.entries } cs = (r, none) := h
    rw [← hsteps]
    exact Refresh.steps_congr (by rwa [hsteps])
  · exact htally.visited_add_reused
  · exact htally.failed_eq
  · rw [Refresh.report, htally.left]
    exact hsorted.length_without _
  · exact entries_of_unchanged h hsorted

/-- **A full account of a refresh.** It ends with an error exactly if a candidate that needs a visit
has a fatal one, and the error is that of the first such candidate. Otherwise all that it leaves,
calls and counts is fixed by the old entries, the visits and the candidates. -/
theorem refresh_account (cache : Cache) (visit : String → Except VisitError Decl)
    (cs : List Candidate) (hsorted : cache.entries.Sorted) :
    (cache.refresh visit cs).2 =
        (cache.entries.outdated cs).findSome? (fun c => fatalError? (visit c.path)) ∧
      ∀ r, cache.refresh visit cs = (r, none) → Account cache.entries visit cs r :=
  ⟨(Tally.start cache.entries visit).error_steps cs, fun _ => account_of_refresh hsorted⟩

namespace Sample

/-- Old entries of three headers, of which `b/b.h` has one class. -/
def remembered : Cache where
  fingerprint := "f"
  entries :=
    [("a.h", ⟨⟨1, 0⟩, .emptyRoot⟩),
     ("b/b.h", ⟨⟨2, 0⟩, .namespaceDecl "" .none [.classDecl "B" .none {} []]⟩),
     ("c.h", ⟨⟨3, 0⟩, .emptyRoot⟩)]

/-- `b/b.h` unchanged and once more with another stamp, `a.h` changed, and two new headers. -/
def listed : List Candidate :=
  [⟨"b/b.h", ⟨2, 0⟩⟩, ⟨"a.h", ⟨5, 0⟩⟩, ⟨"b\\b.h", ⟨9, 0⟩⟩, ⟨"d.h", ⟨4, 0⟩⟩, ⟨"e.h", ⟨4, 0⟩⟩]

/-- The visit of `d.h` fails recoverably, and that of `e.h` ends as told. -/
def visitWith (last : Except VisitError Decl) (path : String) : Except VisitError Decl :=
  if path = "d.h" then .error (.parse path "broken")
  else if path = "e.h" then last
  else .ok (.namespaceDecl "" .none [.classDecl "A" .none {} []])

end Sample

open Sample in
/-- Of five candidates three are visited: `a.h` with another stamp than before, and two new ones, of
which one fails. With a conflict in the last header the refresh ends there, and not at the failure
before it. -/
theorem refresh_account_listed :
    let conflict := VisitError.merge "e.h" (.conflict "E" .enumeration)
    remembered.entries.Sorted ∧
      (∃ r, remembered.refresh (visitWith (.ok .emptyRoot)) listed = (r, none) ∧
        Account remembered.entries (visitWith (.ok .emptyRoot)) listed r ∧
        r.visited = ["a.h", "d.h", "e.h"] ∧
        r.report = { visited := 3, reused := 1, failed := 1, dropped := 1 }) ∧
      (remembered.refresh (visitWith (.error conflict)) listed).2 = some conflict := by
  intro conflict
  have hsorted : remembered.entries.Sorted := by
    unfold Entries.Sorted
    decide
  obtain ⟨r, hrefresh, hvisited, hreport⟩ : ∃ r,
      remembered.refresh (visitWith (.ok .emptyRoot)) listed = (r, none) ∧
        r.visited = ["a.h", "d.h", "e.h"] ∧
        r.report = { visited := 3, reused := 1, failed := 1, dropped := 1 } :=
    ⟨_, rfl, rfl, rfl⟩
  obtain ⟨-, haccount⟩ := refresh_account remembered (visitWith (.ok .emptyRoot)) listed hsorted
  obtain ⟨herror, -⟩ := refresh_account remembered (visitWith (.error conflict)) listed hsorted
  refine ⟨hsorted, ⟨r, hrefresh, haccount r hrefresh, hvisited, hreport⟩, herror.trans ?_⟩
  rfl

end Cache

end HeaderReflect
