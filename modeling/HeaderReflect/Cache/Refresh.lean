import HeaderReflect.Cache.Entries
import HeaderReflect.Path.Key
import HeaderReflect.Visit
import HeaderReflect.Warning

/-!
Bringing the cache up to date. An entry whose stamp still holds is carried over, any other header
is visited again, and entries of headers that are gone are dropped. A visit that fails leaves the
header without declarations, unless the failure is fatal: then nothing further is looked at.
-/

namespace HeaderReflect

/-- A header that is there, and when it was changed last. -/
structure Candidate where
  path : String
  stamp : Stamp
deriving DecidableEq, Repr, Inhabited

structure RefreshReport where
  visited : Nat := 0
  reused : Nat := 0
  failed : Nat := 0
  dropped : Nat := 0
deriving DecidableEq, Repr, Inhabited

/-- Whether any header was visited or dropped. -/
def RefreshReport.changed (r : RefreshReport) : Bool :=
  0 < r.visited || 0 < r.dropped

/-- How far a refresh has come: the old entries nobody has asked for yet, the entries that are up to
date, the paths that were visited, and what was counted and warned about. -/
structure Refresh where
  prior : Entries
  entries : Entries := []
  visited : List String := []
  reused : Nat := 0
  failed : Nat := 0
  warnings : List Warning := []
deriving Repr

namespace Refresh

def report (r : Refresh) : RefreshReport where
  visited := r.visited.length
  reused := r.reused
  failed := r.failed
  dropped := r.prior.length

/-- The old entry of a candidate, if it still holds. -/
def reusable? (r : Refresh) (c : Candidate) : Option CacheEntry :=
  (r.prior.find? (Path.key c.path)).filter (·.stamp = c.stamp)

/-- The tree to keep for a visited header: one without children is as good as the empty one. -/
def kept (root : Decl) : Decl :=
  if root.isEmpty then .emptyRoot else root

/-- Carries an old entry over. -/
def reuse (r : Refresh) (key : String) (entry : CacheEntry) : Refresh :=
  { r with
    prior := r.prior.erase key
    entries := Entries.insert key entry r.entries
    reused := r.reused + 1 }

/-- Notes a visit, whatever comes of it. -/
def note (r : Refresh) (c : Candidate) : Refresh :=
  { r with prior := r.prior.erase (Path.key c.path), visited := r.visited ++ [c.path] }

/-- Enters the tree of a visited header. -/
def enter (r : Refresh) (c : Candidate) (root : Decl) : Refresh :=
  { r with entries := Entries.insert (Path.key c.path) { stamp := c.stamp, root } r.entries }

/-- Enters a header whose visit failed. -/
def enterFailed (r : Refresh) (c : Candidate) : Refresh :=
  { r.enter c .emptyRoot with
    failed := r.failed + 1
    warnings := r.warnings ++ [.visitFailed (Path.key c.path)] }

/-- Takes one candidate in. A path that names an entry already up to date adds nothing. The error
is fatal. -/
def step (visit : String → Except VisitError Decl) (r : Refresh) (c : Candidate) :
    Refresh × Option VisitError :=
  if r.entries.contains (Path.key c.path) then (r, none)
  else
    match r.reusable? c with
    | some entry => (r.reuse (Path.key c.path) entry, none)
    | none =>
      match visit c.path with
      | .ok root => ((r.note c).enter c (kept root), none)
      | .error e => if e.isRecoverable then ((r.note c).enterFailed c, none) else (r.note c, some e)

/-- Takes candidates in one after another, up to the first fatal error. -/
def steps (visit : String → Except VisitError Decl) :
    Refresh → List Candidate → Refresh × Option VisitError
  | r, [] => (r, none)
  | r, c :: rest =>
    match r.step visit c with
    | (r, none) => r.steps visit rest
    | (r, some e) => (r, some e)

end Refresh

/-- Brings a cache up to date with the candidates. -/
def Cache.refresh (cache : Cache) (visit : String → Except VisitError Decl)
    (candidates : List Candidate) : Refresh × Option VisitError :=
  Refresh.steps visit { prior := cache.entries } candidates

end HeaderReflect
