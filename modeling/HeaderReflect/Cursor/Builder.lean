import HeaderReflect.Cursor.Basic

/-!
Writing cursor trees by hand: one function for each kind of declaration, and refinements that are
applied to the result. `Cursor.located` finishes a tree by handing file names down.
-/

namespace HeaderReflect.Cursor

def ofKind (kind : CursorKind) (spelling : String) : Cursor :=
  .node { kind, spelling } []

def modifyInfo (f : CursorInfo → CursorInfo) : Cursor → Cursor
  | .node i cs => .node (f i) cs

def inFile (path : String) : Cursor → Cursor :=
  modifyInfo fun i => { i with file := some path }

def inSystemHeader : Cursor → Cursor :=
  modifyInfo fun i => { i with inSystemHeader := true }

def withAccess (access : Access) : Cursor → Cursor :=
  modifyInfo fun i => { i with access := some access }

def declarationOnly : Cursor → Cursor :=
  modifyInfo fun i => { i with isDefinition := false }

def withStaticStorage : Cursor → Cursor :=
  modifyInfo fun i => { i with storage := .static }

def withType (type : String) : Cursor → Cursor :=
  modifyInfo fun i => { i with type }

def append (more : List Cursor) : Cursor → Cursor
  | .node i cs => .node i (cs ++ more)

def annotationOf (text : String) : Cursor := ofKind .annotationAttr text

def annotate (text : String) : Cursor → Cursor := append [annotationOf text]

/-- The cursor above all others of a header. -/
def unit (path : String) : Cursor := (ofKind .unit "").inFile path

def parameter (type : String) : Cursor := (ofKind .parameter "").withType type

/-- A member is public unless something else is said. -/
def member (kind : CursorKind) (spelling : String) : Cursor :=
  (ofKind kind spelling).withAccess .isPublic

def enumDecl (name : String) (items : List String) : Cursor :=
  (member .enumDecl name).append (items.map (ofKind .enumConstant))

def field (name type : String) : Cursor := (member .fieldDecl name).withType type

/-- A member function; its own type is spelled out from the result and the parameters. -/
def method (name result : String) (params : List String) : Cursor :=
  ((member .method name).withType (result ++ " (" ++ Text.joinWith ", " params ++ ")")).append
    (params.map parameter) |>.modifyInfo fun i => { i with result }

def ctor (owner : String) (params : List String) : Cursor :=
  (member .constructor owner).append (params.map parameter)

mutual

/-- Gives every cursor without a file that of the nearest cursor above it. -/
def locatedIn (above : Option String) : Cursor → Cursor
  | .node i cs => .node { i with file := i.file <|> above } (locatedAllIn (i.file <|> above) cs)

def locatedAllIn (above : Option String) : List Cursor → List Cursor
  | [] => []
  | c :: rest => locatedIn above c :: locatedAllIn above rest

end

def located (c : Cursor) : Cursor := locatedIn none c

end HeaderReflect.Cursor
