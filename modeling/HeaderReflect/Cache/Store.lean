import HeaderReflect.Blob.Reader
import HeaderReflect.Fault
import HeaderReflect.Warning

/-!
Keeping the cache from one run to the next: as a blob under a key of a store. A blob that is
missing or empty is no cache at all, and one that cannot be read is as good as none.
-/

namespace HeaderReflect

inductive CacheError where
  | notFound
  | io (fault : IoFault)
  | decode (fault : Blob.Fault)
  | other (reason : String)
deriving DecidableEq, Repr

/-- What is wrong with a blob that cannot be read. -/
def Blob.Fault.message : Blob.Fault → String
  | .cutShort => "the data ends early"
  | .malformed => "the data is malformed"
  | .unexpected => "the data is of an unexpected type"
  | .tooDeep => "recursion limit exceeded"

def CacheError.message : CacheError → String
  | .notFound => "not found"
  | .io fault => "io error: " ++ fault.message
  | .decode fault => "decode error: " ++ fault.message
  | .other reason => "other: " ++ reason

/-- The key of the cache in its store. -/
def cacheKey : String := "refl_cache"

/-- The cache in a loaded blob, if there is one. -/
def Cache.ofLoaded : Except CacheError Bytes → Except CacheError (Option Cache)
  | .ok [] => .ok none
  | .ok blob => (Blob.decode blob).mapError .decode |>.map some
  | .error .notFound => .ok none
  | .error e => .error e

/-- The cache to start a run with, given what was loaded. -/
def Cache.startFrom (fingerprint : String) (loaded : Except CacheError Bytes) :
    Except CacheError (Cache × List Warning) :=
  match Cache.ofLoaded loaded with
  | .ok (some stored) => .ok (stored.adopt fingerprint, [])
  | .ok none => .ok (Cache.empty fingerprint, [])
  | .error (.decode _) => .ok (Cache.empty fingerprint, [.unreadableBlob])
  | .error e => .error e

/-- A store in memory. It counts the attempts to load and to save, and can be told to fail. -/
structure MemoryStore where
  blobs : List (String × Bytes) := []
  loads : Nat := 0
  saves : Nat := 0
  failLoads : Bool := false
  failSaves : Bool := false
deriving DecidableEq, Repr, Inhabited

namespace MemoryStore

def find? (s : MemoryStore) (key : String) : Option Bytes :=
  s.blobs.lookup key

def put (s : MemoryStore) (key : String) (blob : Bytes) : MemoryStore :=
  { s with blobs := (key, blob) :: s.blobs.filter (·.1 ≠ key) }

def load (s : MemoryStore) (key : String) : Except CacheError Bytes × MemoryStore :=
  let counted := { s with loads := s.loads + 1 }
  if s.failLoads then (.error (.other "simulated load failure"), counted)
  else
    match s.find? key with
    | some blob => (.ok blob, counted)
    | none => (.error .notFound, counted)

def save (s : MemoryStore) (key : String) (blob : Bytes) :
    Except CacheError Unit × MemoryStore :=
  let counted := { s with saves := s.saves + 1 }
  if s.failSaves then (.error (.other "simulated save failure"), counted)
  else (.ok (), counted.put key blob)

end MemoryStore

end HeaderReflect
