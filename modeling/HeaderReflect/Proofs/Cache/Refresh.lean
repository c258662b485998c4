import HeaderReflect.Cache.Refresh
import HeaderReflect.Proofs.Cache.Sorted

/-!
Bringing the cache up to date, next to gathering all entries from scratch. Where the tree of a
header depends on nothing but its key and stamp, and the old entries are such trees, a refresh
arrives at the entries gathered from scratch, or fails as that does (`gather_eq_steps`).
-/

namespace HeaderReflect

namespace Refresh

/-! ## One candidate -/

/-- What taking in a candidate can do. -/
inductive Taken (visit : String → Except VisitError Decl) (r : Refresh) (c : Candidate) :
    Refresh → Option VisitError → Prop where
  | known (hknown : r.entries.contains (Path.key c.path) = true) : Taken visit r c r none
  | reused {entry : CacheEntry} (hnew : r.entries.contains (Path.key c.path) = false)
      (hprior : r.reusable? c = some entry) :
      Taken visit r c (r.reuse (Path.key c.path) entry) none
  | visited {root : Decl} (hnew : r.entries.contains (Path.key c.path) = false)
      (hprior : r.reusable? c = none) (hvisit : visit c.path = .ok root) :
      Taken visit r c ((r.note c).enter c (kept root)) none
  | failed {e : VisitError} (hnew : r.entries.contains (Path.key c.path) = false)
      (hprior : r.reusable? c = none) (hvisit : visit c.path = .error e)
      (hrecoverable : e.isRecoverable = true) : Taken visit r c ((r.note c).enterFailed c) none
  | fatal {e : VisitError} (hnew : r.entries.contains (Path.key c.path) = false)
      (hprior : r.reusable? c = none) (hvisit : visit c.path = .error e)
      (hrecoverable : e.isRecoverable = false) : Taken visit r c (r.note c) (some e)

theorem taken_step (visit : String → Except VisitError Decl) (r : Refresh) (c : Candidate) :
    Taken visit r c (r.step visit c).1 (r.step visit c).2 := by
  unfold step
  by_cases hknown : r.entries.contains (Path.key c.path) = true
  · rw [if_pos hknown]
    exact .known hknown
  · have hnew : r.entries.contains (Path.key c.path) = false := by simpa using hknown
    rw [if_neg hknown]
    cases hprior : r.reusable? c with
    | some entry => exact .reused hnew hprior
    | none =>
      cases hvisit : visit c.path with
      | ok root => exact .visited hnew hprior hvisit
      | error e =>
        by_cases hrec : e.isRecoverable = true
        · simp only [hrec, if_pos]
          exact .failed hnew hprior hvisit hrec
        · simp only [hrec]
          exact .fatal hnew hprior hvisit (by simpa using hrec)

/-- An old entry that still holds is one of the key and the stamp of its candidate. -/
theorem reusable?_eq_some {r : Refresh} {c : Candidate} {entry : CacheEntry}
    (h : r.reusable? c = some entry) :
    r.prior.find? (Path.key c.path) = some entry ∧ entry.stamp = c.stamp := by
  obtain ⟨hfind, hstamp⟩ := Option.filter_eq_some_iff.mp h
  exact ⟨hfind, by simpa using hstamp⟩

/-- The tree to keep after a visit. A fatal failure leaves none. -/
def settle : Except VisitError Decl → Option Decl
  | .ok root => some (kept root)
  | .error e => if e.isRecoverable then some .emptyRoot else none

end Refresh

/-! ## From scratch -/

/-- The trees of headers by key and stamp; there is none where a visit fails fatally. -/
abbrev Trees := String → Stamp → Option Decl

namespace Entries

/-- Puts in the entries of all candidates, the first one of each key. -/
def gather (trees : Trees) : Entries → List Candidate → Option Entries
  | entries, [] => some entries
  | entries, c :: rest =>
    if entries.contains (Path.key c.path) then gather trees entries rest
    else
      match trees (Path.key c.path) c.stamp with
      | some root =>
        gather trees (insert (Path.key c.path) { stamp := c.stamp, root } entries) rest
      | none => none

/-- Every entry holds the tree of its key and stamp. -/
def Agree (trees : Trees) (entries : Entries) : Prop :=
  ∀ key entry, entries.find? key = some entry → trees key entry.stamp = some entry.root

theorem Agree.nil (trees : Trees) : Agree trees [] := fun key entry h => by
  simp [find?] at h

theorem Agree.erase {trees : Trees} {entries : Entries} (h : entries.Agree trees) (key : String) :
    (entries.erase key).Agree trees := by
  intro k entry hfind
  rw [find?_erase] at hfind
  split at hfind
  · cases hfind
  · exact h k entry hfind

theorem Agree.insert {trees : Trees} {entries : Entries} (h : entries.Agree trees) {key : String}
    {entry : CacheEntry} (hentry : trees key entry.stamp = some entry.root) :
    (Entries.insert key entry entries).Agree trees := by
  intro k e hfind
  rw [find?_insert] at hfind
  split at hfind
  · rename_i hk
    cases hfind
    exact hk ▸ hentry
  · exact h k e hfind

/-- What is gathered is in order and holds the trees of its keys and stamps. -/
theorem gather_invariant {trees : Trees} {cs : List Candidate} {entries out : Entries}
    (hs : entries.Sorted) (ha : entries.Agree trees) (h : gather trees entries cs = some out) :
    out.Sorted ∧ out.Agree trees := by
  induction cs generalizing entries with
  | nil => cases h; exact ⟨hs, ha⟩
  | cons c rest ih =>
    unfold gather at h
    split at h
    · exact ih hs ha h
    · split at h
      · rename_i root hroot
        exact ih (hs.insert ..) (ha.insert hroot) h
      · cases h

end Entries

namespace Refresh

/-- The entries after a refresh that met no fatal failure. -/
def outcome? : Refresh × Option VisitError → Option Entries
  | (r, none) => some r.entries
  | (_, some _) => none

/-- **A refresh arrives where gathering from scratch does**, if visits give the trees of their
headers and the old entries hold such trees. -/
theorem gather_eq_steps {visit : String → Except VisitError Decl} {trees : Trees}
    {cs : List Candidate} {r : Refresh} (hprior : r.prior.Agree trees)
    (hvisit : ∀ c ∈ cs, settle (visit c.path) = trees (Path.key c.path) c.stamp) :
    outcome? (r.steps visit cs) = Entries.gather trees r.entries cs := by
  induction cs generalizing r with
  | nil => rfl
  | cons c rest ih =>
    have hhere := hvisit c (List.mem_cons_self ..)
    have hrest : ∀ d ∈ rest, settle (visit d.path) = trees (Path.key d.path) d.stamp :=
      fun d hd => hvisit d (List.mem_cons_of_mem _ hd)
    have htaken := taken_step visit r c
    unfold steps Entries.gather
    generalize r.step visit c = taken at htaken ⊢
    obtain ⟨s, fatal⟩ := taken
    cases htaken with
    | known hknown =>
      rw [if_pos hknown]
      exact ih hprior hrest
    | @reused entry hnew hold =>
      obtain ⟨hfind, hstamp⟩ := reusable?_eq_some hold
      have hroot : trees (Path.key c.path) c.stamp = some entry.root := by
        rw [← hstamp]
        exact hprior _ _ hfind
      have hentry : entry = { stamp := c.stamp, root := entry.root } := by rw [← hstamp]
      rw [hnew, if_neg Bool.false_ne_true, hroot]
      show _ = Entries.gather trees (Entries.insert _ _ r.entries) rest
      rw [← hentry]
      exact ih (hprior.erase _) hrest
    | @visited root hnew _ hvisited =>
      rw [hvisited] at hhere
      rw [hnew, if_neg Bool.false_ne_true, ← hhere]
      exact ih (hprior.erase _) hrest
    | @failed e hnew _ hfailed hrec =>
      rw [hfailed, settle, if_pos hrec] at hhere
      rw [hnew, if_neg Bool.false_ne_true, ← hhere]
      exact ih (hprior.erase _) hrest
    | @fatal e hnew _ hfailed hrec =>
      rw [hfailed, settle, hrec, if_neg Bool.false_ne_true] at hhere
      rw [hnew, if_neg Bool.false_ne_true, ← hhere]
      rfl

/-! ## A refresh that changes nothing -/

theorem Taken.sorted {visit : String → Except VisitError Decl} {r s : Refresh} {c : Candidate}
    {fatal : Option VisitError} (h : Taken visit r c s fatal) (hr : r.entries.Sorted) :
    s.entries.Sorted := by
  cases h with
  | known => exact hr
  | reused => exact hr.insert ..
  | visited => exact hr.insert ..
  | failed => exact hr.insert ..
  | fatal => exact hr

theorem sorted_steps {visit : String → Except VisitError Decl} {cs : List Candidate} {r : Refresh}
    (hr : r.entries.Sorted) : (r.steps visit cs).1.entries.Sorted := by
  induction cs generalizing r with
  | nil => exact hr
  | cons c rest ih =>
    have hs := (taken_step visit r c).sorted hr
    unfold steps
    split
    · rename_i s hstep
      rw [hstep] at hs
      exact ih hs
    · rename_i s e hstep
      rw [hstep] at hs
      exact hs

/-- What is found among the entries up to date, or else among the old ones. -/
def find? (r : Refresh) (key : String) : Option CacheEntry :=
  (r.entries.find? key).or (r.prior.find? key)

/-- A candidate is visited, or its entry is only carried over. -/
theorem Taken.visited_or_same {visit : String → Except VisitError Decl} {r s : Refresh}
    {c : Candidate} (h : Taken visit r c s none) :
    r.visited.length < s.visited.length ∨ s.visited = r.visited ∧ s.find? = r.find? := by
  have hnote : (r.note c).visited.length = r.visited.length + 1 := by simp [note]
  cases h with
  | known => exact .inr ⟨rfl, rfl⟩
  | @reused entry hnew hprior =>
    refine .inr ⟨rfl, funext fun key => ?_⟩
    have hnone : r.entries.find? (Path.key c.path) = none := by simpa [Entries.contains] using hnew
    show (Entries.find? (Entries.insert _ _ _) key).or ((r.prior.erase _).find? key) = _
    rw [find?, Entries.find?_insert, Entries.find?_erase]
    by_cases hkey : key = Path.key c.path
    · simp [hkey, hnone, (reusable?_eq_some hprior).1]
    · simp [hkey]
  | visited => exact .inl (by simp only [enter]; omega)
  | failed => exact .inl (by simp only [enterFailed, enter]; omega)

theorem steps_visited_or_same {visit : String → Except VisitError Decl} {cs : List Candidate}
    {r s : Refresh} (h : r.steps visit cs = (s, none)) :
    r.visited.length < s.visited.length ∨ s.visited = r.visited ∧ s.find? = r.find? := by
  induction cs generalizing r with
  | nil => cases h; exact .inr ⟨rfl, rfl⟩
  | cons c rest ih =>
    have htaken := taken_step visit r c
    unfold steps at h
    split at h
    · rename_i t hstep
      have hone : Taken visit r c t none := by simpa only [hstep] using htaken
      rcases hone.visited_or_same, ih h with ⟨hlt | ⟨hvisited, hfind⟩, hmore | ⟨hvisited', hfind'⟩⟩
      · exact .inl (by omega)
      · exact .inl (by rw [hvisited']; exact hlt)
      · exact .inl (by rw [← hvisited]; exact hmore)
      · exact .inr ⟨hvisited'.trans hvisited, hfind'.trans hfind⟩
    · cases h

end Refresh

theorem Cache.sorted_of_refresh {cache : Cache} {visit : String → Except VisitError Decl}
    {cs : List Candidate} {r : Refresh} {fatal : Option VisitError}
    (h : cache.refresh visit cs = (r, fatal)) : r.entries.Sorted := by
  have hall : (cache.refresh visit cs).1.entries.Sorted := Refresh.sorted_steps .nil
  rwa [h] at hall

/-- Where nothing is visited or dropped the entries are those from before. -/
theorem Cache.entries_of_unchanged {cache : Cache} {visit : String → Except VisitError Decl}
    {cs : List Candidate} {r : Refresh} (h : cache.refresh visit cs = (r, none))
    (hs : cache.entries.Sorted) (hunchanged : r.report.changed = false) :
    r.entries = cache.entries := by
  have hcounts : r.visited.length = 0 ∧ r.prior.length = 0 := by
    rw [RefreshReport.changed, Bool.or_eq_false_iff, decide_eq_false_iff_not,
      decide_eq_false_iff_not] at hunchanged
    exact ⟨Nat.eq_zero_of_not_pos hunchanged.1, Nat.eq_zero_of_not_pos hunchanged.2⟩
  refine (Cache.sorted_of_refresh h).ext hs fun key => ?_
  rcases Refresh.steps_visited_or_same h with hlt | ⟨-, hfind⟩
  · exact absurd hlt (by omega)
  · have hprior : r.prior = [] := List.length_eq_zero_iff.mp hcounts.2
    have hkey := congrFun hfind key
    simpa [Refresh.find?, hprior, Entries.find?] using hkey

end HeaderReflect
