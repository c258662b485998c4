import HeaderReflect.Glob.Walk

/-!
Finding the headers below a directory: the files at any depth whose names end with one of the
extensions. They are listed once each, in the order of their path components.
-/

namespace HeaderReflect

inductive DiscoveryError where
  | notADirectory (root : String)
  | badPattern (pattern : String)
deriving DecidableEq, Repr

def DiscoveryError.message : DiscoveryError → String
  | .notADirectory root => root ++ " is not a directory"
  | .badPattern pattern => "bad header pattern " ++ pattern

namespace Discovery

/-- The pattern for files of an extension, which may be given with its dots. -/
def pattern (root extension : String) : String :=
  String.ofList (Glob.escape root.toList ++ "/**/*.".toList
    ++ extension.toList.dropWhile (· == '.'))

/-- The files of all extensions, one extension after another. -/
def collect (fs : FileSystem) (root : String) :
    List String → Except DiscoveryError (List String)
  | [] => .ok []
  | extension :: rest =>
    match Glob.files? fs (pattern root extension) with
    | some found => do return found ++ (← collect fs root rest)
    | none => .error (.badPattern (pattern root extension))

/-- The first path of each run of neighbours that name the same place. -/
def dropRepeated : List String → List String
  | [] => []
  | path :: rest => path :: go path rest
where
  go (last : String) : List String → List String
    | [] => []
    | path :: rest => if Path.samePlace last path then go last rest else path :: go path rest

/-- The paths in order of their components, each once. -/
def inOrder (paths : List String) : List String :=
  dropRepeated (paths.mergeSort fun a b => Path.componentsLe (Path.components a) (Path.components b))

end Discovery

/-- The headers below a directory. -/
def discoverHeaders (fs : FileSystem) (root : String) (extensions : List String) :
    Except DiscoveryError (List String) := do
  if fs.isDirectory root then
    return Discovery.inOrder (← Discovery.collect fs root extensions)
  else .error (.notADirectory root)

end HeaderReflect
