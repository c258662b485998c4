import HeaderReflect.Cache.Entries
import HeaderReflect.Fault
import HeaderReflect.Path.Components
import HeaderReflect.Text.Bytes

/-!
A tree of files and directories, one of which is the working directory. Absolute paths are followed
from the root and all others from there, step by step, and each step has to start in a directory.
Every change takes place at a time of its own.
-/

namespace HeaderReflect

/-- The names on the way down from the root. -/
abbrev Location := List String

/-- Where a path starts that is taken from `home`. -/
def Path.startFrom (home : Location) (path : String) : Location :=
  if isAbsolute path then [] else home

inductive FileEntry where
  | file (content : Bytes) (changed : Time)
  | directory (changed : Time)
deriving DecidableEq, Repr, Inhabited

def FileEntry.changed : FileEntry → Time
  | .file _ t => t
  | .directory t => t

def FileEntry.isDirectory : FileEntry → Bool
  | .file .. => false
  | .directory _ => true

def FileEntry.withTime (t : Time) : FileEntry → FileEntry
  | .file content _ => .file content t
  | .directory _ => .directory t

/-- All that is there by location, where relative paths start, and the time of the next change. -/
structure FileSystem where
  entries : List (Location × FileEntry)
  working : Location
  clock : Time
deriving DecidableEq, Repr, Inhabited

namespace FileSystem

/-- Nothing but an empty working directory in the root. -/
def empty (clock : Time) : FileSystem where
  entries := [([], .directory clock), (["work"], .directory clock)]
  working := ["work"]
  clock := clock + 1

def lookup? (fs : FileSystem) (location : Location) : Option FileEntry :=
  fs.entries.lookup location

/-- Replaces an entry in its place, or adds a new one at the end. -/
def setEntry (location : Location) (entry : FileEntry) :
    List (Location × FileEntry) → List (Location × FileEntry)
  | [] => [(location, entry)]
  | e :: rest =>
    if e.1 = location then (location, entry) :: rest else e :: setEntry location entry rest

def set (fs : FileSystem) (location : Location) (entry : FileEntry) : FileSystem :=
  { fs with entries := setEntry location entry fs.entries }

theorem lookup_setEntry (entries : List (Location × FileEntry)) (location l : Location)
    (entry : FileEntry) :
    (setEntry location entry entries).lookup l =
      if l = location then some entry else entries.lookup l := by
  have lookup_cons (k : Location) (e : FileEntry) (rest : List (Location × FileEntry)) :
      ((k, e) :: rest).lookup l = if l = k then some e else rest.lookup l := by
    by_cases h : l = k
    · subst h; simp
    · simp [List.lookup_cons, beq_eq_false_iff_ne.2 h, h]
  induction entries with
  | nil => exact lookup_cons location entry []
  | cons e rest ih =>
    obtain ⟨k, old⟩ := e
    simp only [setEntry]
    split
    · rename_i heq
      subst heq
      simp only [lookup_cons]
      split <;> rfl
    · rename_i hne
      simp only [lookup_cons, ih]
      by_cases h : l = location
      · subst h; simp [Ne.symm hne]
      · simp [h]

theorem lookup?_set (fs : FileSystem) (location l : Location) (entry : FileEntry) :
    (fs.set location entry).lookup? l = if l = location then some entry else fs.lookup? l :=
  lookup_setEntry fs.entries location l entry

/-- Marks a directory as changed. -/
def mark (fs : FileSystem) (location : Location) : FileSystem :=
  match fs.lookup? location with
  | some (.directory _) => fs.set location (.directory fs.clock)
  | _ => fs

def tick (fs : FileSystem) : FileSystem :=
  { fs with clock := fs.clock + 1 }

/-- Adds a new entry to its directory. -/
def add (fs : FileSystem) (location : Location) (entry : FileEntry) : FileSystem :=
  ((fs.set location entry).mark location.dropLast).tick

/-- A step can only start in a directory. -/
def requireDirectory (fs : FileSystem) (location : Location) : Except IoFault Unit :=
  match fs.lookup? location with
  | some (.directory _) => .ok ()
  | some (.file ..) => .error .notADirectory
  | none => .error .notFound

/-- Follows the pieces of a path. What the last one names need not be there, and nothing lies above
the root. -/
def follow (fs : FileSystem) : Location → List String → Except IoFault Location
  | location, [] => .ok location
  | location, piece :: rest => do
    fs.requireDirectory location
    if piece = "" ∨ piece = "." then fs.follow location rest
    else if piece = ".." then fs.follow location.dropLast rest
    else fs.follow (location ++ [piece]) rest

/-- The location of a path. There is nothing at the empty path. -/
def locate (fs : FileSystem) (path : String) : Except IoFault Location :=
  if path = "" then .error .notFound
  else fs.follow (Path.startFrom fs.working path) (Path.pieces path)

/-- What there is at a path. -/
def stat (fs : FileSystem) (path : String) : Except IoFault FileEntry := do
  match fs.lookup? (← fs.locate path) with
  | some e => .ok e
  | none => .error .notFound

def isDirectory (fs : FileSystem) (path : String) : Bool :=
  match fs.stat path with
  | .ok e => e.isDirectory
  | .error _ => false

def isFile (fs : FileSystem) (path : String) : Bool :=
  match fs.stat path with
  | .ok e => !e.isDirectory
  | .error _ => false

def read (fs : FileSystem) (path : String) : Except IoFault Bytes := do
  match ← fs.stat path with
  | .file content _ => .ok content
  | .directory _ => .error .isADirectory

def readText (fs : FileSystem) (path : String) : Except IoFault String := do
  match Text.ofUtf8? (← fs.read path) with
  | some s => .ok s
  | none => .error .invalidText

def endsWithSeparator (path : String) : Bool :=
  path.toList.getLast? == some '/'

/-- The path without the separators at its end. The root stays the root. -/
def dropSeparators (path : String) : String :=
  match path.toList.reverse.dropWhile (· == '/') with
  | [] => path
  | kept => String.ofList kept.reverse

/-- Writes a file in a directory that is there. A path that ends with a separator cannot name a
file. -/
def write (fs : FileSystem) (path : String) (content : Bytes) : Except IoFault FileSystem := do
  if endsWithSeparator path then
    let _ ← fs.locate (dropSeparators path)
    .error .isADirectory
  else
    let location ← fs.locate path
    match fs.lookup? location with
    | some (.directory _) => .error .isADirectory
    | some (.file ..) => .ok (fs.set location (.file content fs.clock)).tick
    | none => .ok (fs.add location (.file content fs.clock))

/-- Writes a file unless it holds exactly this content already; also tells whether it did. -/
def writeIfChanged (fs : FileSystem) (path : String) (content : Bytes) :
    Except IoFault (Bool × FileSystem) :=
  match fs.read path with
  | .ok old => if old = content then .ok (false, fs) else written
  | .error _ => written
where
  written : Except IoFault (Bool × FileSystem) := (fs.write path content).map (true, ·)

/-- Makes a directory in one that is there. -/
def makeDirectory (fs : FileSystem) (path : String) : Except IoFault FileSystem := do
  let location ← fs.locate (dropSeparators path)
  match fs.lookup? location with
  | some _ => .error .alreadyExists
  | none => .ok (fs.add location (.directory fs.clock))

/-- Makes the first of the given paths a directory; the others are the ones above it, nearest
first, and are made where they are missing. -/
def makeDirectories : List String → FileSystem → Except IoFault FileSystem
  | [], fs => .ok fs
  | path :: above, fs =>
    if path = "" then .ok fs
    else
      match fs.makeDirectory path with
      | .ok made => .ok made
      | .error .notFound => do
        let fs ← makeDirectories above fs
        match fs.makeDirectory path with
        | .ok made => .ok made
        | .error fault => if fs.isDirectory path then .ok fs else .error fault
      | .error fault => if fs.isDirectory path then .ok fs else .error fault

/-- Sees to it that a path is a directory. -/
def ensureDirectory (fs : FileSystem) (path : String) : Except IoFault FileSystem :=
  makeDirectories (Path.ancestors path) fs

/-- Puts a file in its place and makes the directories above it where they are missing. -/
def place (fs : FileSystem) (path : String) (content : Bytes) : Except IoFault FileSystem := do
  (← fs.ensureDirectory ((Path.parent? path).getD "")).write path content

/-- Sets the time of the last change. -/
def setTime (fs : FileSystem) (path : String) (t : Time) : Except IoFault FileSystem := do
  let location ← fs.locate path
  match fs.lookup? location with
  | some e => .ok (fs.set location (e.withTime t))
  | none => .error .notFound

/-- Removes a file, or a directory with all that is in it. -/
def remove (fs : FileSystem) (path : String) : Except IoFault FileSystem := do
  let location ← fs.locate path
  match fs.lookup? location with
  | some _ =>
    let left := { fs with entries := fs.entries.filter fun e => !location.isPrefixOf e.1 }
    .ok (left.mark location.dropLast).tick
  | none => .error .notFound

/-- What lies below a location at any depth, with the way down to it. -/
def below (fs : FileSystem) (location : Location) : List (Location × FileEntry) :=
  fs.entries.filterMap fun (l, e) =>
    match location.isPrefixOf? l with
    | some [] => none
    | some way => some (way, e)
    | none => none

/-- What lies directly in a location. -/
def childrenOf (fs : FileSystem) (location : Location) : List (String × FileEntry) :=
  (fs.below location).filterMap fun (way, e) =>
    match way with
    | [name] => some (name, e)
    | _ => none

/-- The paths of all that lies below a directory, sorted. A directory ends with a separator. -/
def listing (fs : FileSystem) (path : String) : List String :=
  match fs.isDirectory path, fs.locate path with
  | true, .ok location =>
    ((fs.below location).map fun (way, e) =>
      path ++ "/" ++ Text.joinWith "/" way ++ (if e.isDirectory then "/" else "")).mergeSort
        fun a b => decide (a ≤ b)
  | _, _ => []

end FileSystem

end HeaderReflect
