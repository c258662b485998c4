import HeaderReflect.Path.Components
import HeaderReflect.Tree.Members

/-!
The parsed form of a header: a tree of cursors, each with its spelling, its types, and the file it
was declared in.
-/

namespace HeaderReflect

inductive CursorKind where
  | unit
  | namespaceDecl
  | classDecl
  | structDecl
  | enumDecl
  | enumConstant
  | fieldDecl
  | method
  | constructor
  | parameter
  | annotationAttr
  | other
deriving DecidableEq, Repr, Inhabited

inductive Storage where
  | unspecified
  | static
  | external
  | other
deriving DecidableEq, Repr, Inhabited

/-- All that a cursor says about itself. -/
structure CursorInfo where
  kind : CursorKind
  spelling : String := ""
  type : String := ""
  result : String := ""
  storage : Storage := .unspecified
  access : Option Access := none
  file : Option String := none
  inSystemHeader : Bool := false
  isDefinition : Bool := true
deriving DecidableEq, Repr, Inhabited

inductive Cursor where
  | node (info : CursorInfo) (children : List Cursor)
deriving Repr, Inhabited

namespace Cursor

def info : Cursor → CursorInfo
  | .node i _ => i

def children : Cursor → List Cursor
  | .node _ cs => cs

def kind (c : Cursor) : CursorKind := c.info.kind

def spelling (c : Cursor) : String := c.info.spelling

/-- The text of the last annotation that stands directly on the cursor. -/
def annotationText? (c : Cursor) : Option String :=
  (c.children.reverse.find? (·.kind = .annotationAttr)).map (·.spelling)

/-- Whether the cursor was declared in the file itself and not in a system header. -/
def isFrom (file : String) (c : Cursor) : Bool :=
  !c.info.inSystemHeader && c.info.file.any (Path.samePlace file)

end Cursor

end HeaderReflect
