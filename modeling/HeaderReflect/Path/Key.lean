import HeaderReflect.Text.Pieces

/-!
Names derived from a header's path: the key it is cached under, the path generated code includes,
and the identifier its registration functions carry. Both separators count, and the segments that
are empty, `.` or `..` carry no meaning.
-/

namespace HeaderReflect.Path

abbrev Segment := List Char

def isSeparator (c : Char) : Bool := c == '/' || c == '\\'

/-- The path with `/` as its only separator. -/
def key (path : String) : String :=
  String.ofList (path.toList.map fun c => if c = '\\' then '/' else c)

def isMeaningful (segment : Segment) : Bool :=
  !(segment.isEmpty || segment == ['.'] || segment == ['.', '.'])

/-- The meaningful segments between separators, in order. -/
def segments (path : List Char) : List Segment :=
  (path.splitOnP isSeparator).filter isMeaningful

/-- The segments with `/` between them. -/
def joinSegments (parts : List Segment) : List Char :=
  List.intercalate ['/'] parts

def normalize (path : String) : String :=
  String.ofList (joinSegments (segments path.toList))

/-- A file name up to its last dot. A name whose only dot is its first character is kept. -/
def stem (name : Segment) : Segment :=
  if name.contains '.' then
    let front := (name.reverse.dropWhile (· != '.')).reverse.dropLast
    if front.isEmpty then name else front
  else name

def mapLast (f : Segment → Segment) : List Segment → List Segment
  | [] => []
  | [s] => [f s]
  | s :: t :: rest => s :: mapLast f (t :: rest)

def isAsciiAlphanumeric (c : Char) : Bool :=
  ('a' ≤ c && c ≤ 'z') || ('A' ≤ c && c ≤ 'Z') || ('0' ≤ c && c ≤ '9')

/-- Letters, digits and underscores of ASCII stay, every other character becomes an underscore. -/
def identifierChar (c : Char) : Char :=
  if isAsciiAlphanumeric c || c == '_' then c else '_'

/-- The identifier of a header: its segments without the extension, joined by underscores. -/
def identifier (path : String) : String :=
  String.ofList
    (List.intercalate ['_'] ((mapLast stem (segments path.toList)).map (·.map identifierChar)))

/-- The path by which generated code includes the header cached under `headerKey`: relative to
the include directory if the header lies below it. -/
def includePath (includeDir headerKey : String) : String :=
  let header := joinSegments (segments headerKey.toList)
  let root := joinSegments (segments includeDir.toList)
  if root.isEmpty then String.ofList header
  else
    match Text.after? (root ++ ['/']) header with
    | some rest => String.ofList rest
    | none => String.ofList header

end HeaderReflect.Path
