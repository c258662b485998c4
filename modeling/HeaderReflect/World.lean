import HeaderReflect.Cache.Store
import HeaderReflect.FileSystem.Basic

/-!
All that a run can read and change: the file system and a store in memory. The cache is kept in
that store or as a file of its own.
-/

namespace HeaderReflect

structure World where
  files : FileSystem
  memory : MemoryStore := {}
deriving DecidableEq, Repr, Inhabited

/-- Where the cache is kept. -/
inductive CachePlace where
  | inMemory
  | inDirectory (base : String)
deriving DecidableEq, Repr, Inhabited

namespace CachePlace

/-- The file that holds the blob of a key. -/
def fileOf (base key : String) : String :=
  Path.join base (key ++ ".cbor")

def load (key : String) (w : World) : CachePlace → Except CacheError Bytes × World
  | .inMemory =>
    let (loaded, memory) := w.memory.load key
    (loaded, { w with memory })
  | .inDirectory base =>
    match w.files.read (fileOf base key) with
    | .ok blob => (.ok blob, w)
    | .error .notFound => (.error .notFound, w)
    | .error fault => (.error (.io fault), w)

/-- Puts a blob into its file. The directory is made if it is missing. -/
def saveIn (base key : String) (blob : Bytes) (w : World) : Except CacheError Unit × World :=
  match w.files.ensureDirectory base with
  | .error fault => (.error (.io fault), w)
  | .ok files =>
    match files.write (fileOf base key) blob with
    | .error fault => (.error (.io fault), { w with files })
    | .ok files => (.ok (), { w with files })

def save (key : String) (blob : Bytes) (w : World) : CachePlace → Except CacheError Unit × World
  | .inMemory =>
    let (saved, memory) := w.memory.save key blob
    (saved, { w with memory })
  | .inDirectory base => saveIn base key blob w

end CachePlace

end HeaderReflect
