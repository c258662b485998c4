import HeaderReflect.Text.Pieces

/-!
A path as the file system reads it: components between `/`, where `\` is an ordinary character.
Repeated separators, a separator at the end and a `.` that does not stand first mean nothing, so
two paths are the same place exactly when their components agree.
-/

namespace HeaderReflect.Path

inductive Component where
  | root
  | here
  | up
  | name (text : String)
deriving DecidableEq, Repr

def Component.text : Component → String
  | .root => "/"
  | .here => "."
  | .up => ".."
  | .name text => text

/-- The texts between separators, empty ones included. -/
def pieces (path : String) : List String :=
  (path.toList.splitOnP (· == '/')).map String.ofList

def isAbsolute (path : String) : Bool :=
  path.toList.head? == some '/'

def Component.ofPiece? (piece : String) : Option Component :=
  if piece = "" ∨ piece = "." then none
  else if piece = ".." then some .up
  else some (.name piece)

/-- The components of a path. A `.` counts only in front of a relative path. -/
def components (path : String) : List Component :=
  if isAbsolute path then
    .root :: (pieces path).filterMap Component.ofPiece?
  else
    match pieces path with
    | "." :: rest => .here :: rest.filterMap Component.ofPiece?
    | all => all.filterMap Component.ofPiece?

/-- Whether two paths name the same place. -/
def samePlace (a b : String) : Bool :=
  components a == components b

def Component.rank : Component → Nat
  | .root => 0
  | .here => 1
  | .up => 2
  | .name _ => 3

/-- The order of components: by kind, and names by their code points. -/
def Component.before : Component → Component → Bool
  | .name a, .name b => decide (a < b)
  | a, b => decide (a.rank < b.rank)

/-- Lists of components in dictionary order. -/
def componentsLe : List Component → List Component → Bool
  | [], _ => true
  | _ :: _, [] => false
  | a :: as, b :: bs => a.before b || (a == b && componentsLe as bs)

/-- `name` below the directory `dir`. An absolute name stands for itself. -/
def join (dir name : String) : String :=
  if isAbsolute name then name
  else if dir = "" ∨ dir.toList.getLast? = some '/' then dir ++ name
  else dir ++ "/" ++ name

/-- Whether a piece at the end of a path adds no component to the pieces before it. -/
def isIdle (before : List String) (piece : String) : Bool :=
  match before with
  | [] => false
  | _ :: _ => piece == "" || piece == "."

/-- The pieces, last first, without those at the end that add no component. -/
def dropIdle : List String → List String
  | [] => []
  | piece :: before => if isIdle before piece then dropIdle before else piece :: before

/-- The text of the pieces, given last first. The empty piece in front alone is the root. -/
def textOfPieces : List String → String
  | [""] => "/"
  | reversed => Text.joinWith "/" reversed.reverse

/-- The path without its last component. The root and the empty path have none to lose. -/
def parent? (path : String) : Option String :=
  match dropIdle (pieces path).reverse with
  | [] => none
  | [""] => none
  | _ :: before => some (textOfPieces (dropIdle before))

/-- The path, its parent, and so on; at most `limit` of them. -/
def ancestorsUpTo : (limit : Nat) → String → List String
  | 0, _ => []
  | limit + 1, path =>
    path :: match parent? path with
      | some above => ancestorsUpTo limit above
      | none => []

/-- The path and all paths above it, nearest first. -/
def ancestors (path : String) : List String :=
  ancestorsUpTo (path.length + 1) path

end HeaderReflect.Path
