import HeaderReflect.Tree.Decl

/-!
The cached state of headers: for each key the time stamp of the header and the tree derived from
it. Entries are kept in the order of their keys, each key once.
-/

namespace HeaderReflect

/-- A point in time, in nanoseconds since the epoch. -/
abbrev Time := Int

/-- A modification time in whole seconds and the nanoseconds beyond. -/
structure Stamp where
  secs : UInt64
  nanos : UInt32
deriving DecidableEq, Repr, Inhabited

/-- The stamp of a time; a time before the epoch counts as the epoch. -/
def Stamp.ofTime (t : Time) : Stamp :=
  { secs := UInt64.ofNat (t.toNat / 1000000000)
    nanos := UInt32.ofNat (t.toNat % 1000000000) }

structure CacheEntry where
  stamp : Stamp
  root : Decl
deriving Repr, Inhabited

abbrev Entries := List (String × CacheEntry)

namespace Entries

def find? (entries : Entries) (key : String) : Option CacheEntry :=
  entries.lookup key

def contains (entries : Entries) (key : String) : Bool :=
  (entries.find? key).isSome

def keys (entries : Entries) : List String :=
  entries.map (·.1)

/-- Puts an entry in its place; an entry of the same key makes room. -/
def insert (key : String) (entry : CacheEntry) : Entries → Entries
  | [] => [(key, entry)]
  | (k, e) :: rest =>
    if key < k then (key, entry) :: (k, e) :: rest
    else if key = k then (key, entry) :: rest
    else (k, e) :: insert key entry rest

def erase (entries : Entries) (key : String) : Entries :=
  entries.filter (·.1 ≠ key)

theorem find?_cons (key k : String) (entry : CacheEntry) (rest : Entries) :
    Entries.find? ((key, entry) :: rest) k = if k = key then some entry else rest.find? k := by
  by_cases h : k = key
  · subst h; simp [find?]
  · simp [find?, List.lookup_cons, beq_eq_false_iff_ne.2 h, h]

theorem find?_insert (entries : Entries) (key k : String) (entry : CacheEntry) :
    Entries.find? (insert key entry entries) k =
      if k = key then some entry else entries.find? k := by
  induction entries with
  | nil => exact find?_cons key k entry []
  | cons e rest ih =>
    obtain ⟨l, old⟩ := e
    simp only [insert]
    split
    · exact find?_cons key k entry _
    · split
      · rename_i heq
        subst heq
        simp only [find?_cons]
        split <;> rfl
      · rename_i hne
        simp only [find?_cons, ih]
        by_cases h : k = key
        · subst h; simp [hne]
        · simp [h]

theorem find?_erase (entries : Entries) (key k : String) :
    (entries.erase key).find? k = if k = key then none else entries.find? k := by
  induction entries with
  | nil => simp [erase, find?]
  | cons e rest ih =>
    obtain ⟨l, old⟩ := e
    by_cases hl : l = key
    · subst hl
      have : Entries.erase ((l, old) :: rest) l = Entries.erase rest l := by
        simp [erase]
      rw [this, ih, find?_cons]
      split <;> rfl
    · have : Entries.erase ((l, old) :: rest) key = (l, old) :: Entries.erase rest key := by
        simp [erase, hl]
      rw [this, find?_cons, find?_cons, ih]
      by_cases h : k = key
      · subst h; simp [Ne.symm hl]
      · simp [h]

end Entries

/-- The cache: entries, and the fingerprint of the generator they were derived under. -/
structure Cache where
  fingerprint : String
  entries : Entries
deriving Repr, Inhabited

namespace Cache

def empty (fingerprint : String) : Cache := ⟨fingerprint, []⟩

/-- A stored cache for use under the given fingerprint: one from another generator is worthless. -/
def adopt (stored : Cache) (fingerprint : String) : Cache :=
  if stored.fingerprint = fingerprint then stored else empty fingerprint

end Cache

end HeaderReflect
