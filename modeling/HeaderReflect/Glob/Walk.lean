import HeaderReflect.FileSystem.Basic
import HeaderReflect.Glob.Pattern

/-!
All paths of a file system that a pattern matches. The pattern is taken apart at its separators,
and the file system is searched name by name, beginning at the pattern's scope.
-/

namespace HeaderReflect.Glob

/-- Where a search starts and the pattern that is left: the root, which is cut off, or the working
directory. -/
def scopeOf (pattern : String) : String × List Char :=
  if Path.isAbsolute pattern then ("/", pattern.toList.tail) else (".", pattern.toList)

/-- The pieces between separators. A separator at the end adds none. -/
def piecesOf (pattern : List Char) : List (List Char) :=
  let pieces := pattern.splitOnP (· == '/')
  if pieces.getLast? = some [] then pieces.dropLast else pieces

/-- The patterns of the single names. -/
def namePatterns? : List (List Char) → Option (List Pattern)
  | [] => some []
  | piece :: rest => do return (← Pattern.parse? piece) :: (← namePatterns? rest)

/-- The patterns with one `**` in place of several in a row. -/
def mergeRecursive : List Pattern → List Pattern
  | p :: q :: rest =>
    if p.isRecursive && q.isRecursive then mergeRecursive (q :: rest)
    else p :: mergeRecursive (q :: rest)
  | short => short

/-- A path below another one; the working directory itself is not spelled out. -/
def extend (path name : String) : String :=
  if Path.samePlace path "." then name else Path.join path name

/-- What lies below a path at any depth: path, name and entry. -/
def descendants (fs : FileSystem) (path : String) : List (String × String × FileEntry) :=
  match fs.locate path with
  | .error _ => []
  | .ok location =>
    (fs.below location).map fun (way, e) =>
      (extend path (Text.joinWith "/" way), way.getLastD "", e)

/-- The paths of the entries of a directory whose names match. -/
def matchingChildren (fs : FileSystem) (p : Pattern) (path : String) : List String :=
  match fs.locate path with
  | .error _ => []
  | .ok location =>
    ((fs.childrenOf location).filter fun (name, _) => p.matches name.toList).map fun (name, _) =>
      extend path name

/-- The names `.` and `..`, which match only where the dot is written out. -/
def matchingDots (p : Pattern) (path : String) : List String :=
  if p.head? = some (.literal '.') then
    ([".", ".."].filter fun dots => p.matches dots.toList).map (Path.join path)
  else []

/-- Everything below `path` that the patterns match, one name after another. -/
def search (fs : FileSystem) : List Pattern → String → List String
  | [], path => [path]
  | p :: rest, path =>
    match p.literal? with
    | some cs =>
      let name := String.ofList cs
      let next := extend path name
      let there :=
        if name = "." ∨ name = ".." then fs.isDirectory path
        else (fs.stat next).toOption.isSome
      if there then search fs rest next else []
    | none =>
      if !fs.isDirectory path then []
      else if p.isRecursive then
        match rest with
        | [] =>
          ((descendants fs path).filter fun (_, _, e) => e.isDirectory).map fun (found, _) => found
        | q :: rest =>
          ((descendants fs path).filter fun (_, name, _) => q.matches name.toList).flatMap
            fun (found, _) => search fs rest found
      else
        (matchingChildren fs p path ++ matchingDots p path).flatMap (search fs rest)

/-- All files that match, unless the pattern is malformed. A pattern that ends with a separator is
for directories only. -/
def files? (fs : FileSystem) (pattern : String) : Option (List String) := do
  let _ ← Pattern.parse? pattern.toList
  let (scope, rest) := scopeOf pattern
  let patterns ← namePatterns? (piecesOf rest)
  if FileSystem.endsWithSeparator pattern then return []
  else return (search fs (mergeRecursive patterns) scope).filter fs.isFile

end HeaderReflect.Glob
