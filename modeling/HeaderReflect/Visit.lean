import HeaderReflect.Cursor.Basic
import HeaderReflect.Fault
import HeaderReflect.Tree.Merge

/-!
From the cursors of a header to its declaration tree. Only what is declared in the visited file
counts. Namespaces are united as they are reopened; classes and enums are kept where something in
them is needed; every other kind of cursor is looked through.
-/

namespace HeaderReflect

inductive VisitError where
  | parse (path reason : String)
  | read (path : String) (fault : IoFault)
  | merge (path : String) (error : MergeError)
deriving DecidableEq, Repr

namespace VisitError

def message : VisitError → String
  | .parse path reason => "failed to parse " ++ path ++ ": " ++ reason
  | .read path fault => "failed to read " ++ path ++ ": " ++ fault.message
  | .merge path error => path ++ ": " ++ error.message

/-- Whether a run may go on without the header. -/
def isRecoverable : VisitError → Bool
  | .parse .. => true
  | .read .. => true
  | .merge .. => false

end VisitError

namespace Cursor

/-- The wishes stated by the cursor's own annotation. -/
def ownAttributes (c : Cursor) : Attributes :=
  match c.annotationText? with
  | some text => Attributes.parse text
  | none => Attributes.none

/-- The wishes of the cursor inside a scope. -/
def attributesIn (scope : Attributes) (c : Cursor) : Attributes :=
  Attributes.effective c.ownAttributes scope

def parameterTypes (c : Cursor) : List String :=
  (c.children.filter (·.kind = .parameter)).map (·.info.type)

def enumInfo (scope : Attributes) (c : Cursor) : EnumInfo where
  name := c.spelling
  attrs := c.attributesIn scope
  items := (c.children.filter (·.kind = .enumConstant)).map (·.spelling)

def fieldInfo (scope : Attributes) (c : Cursor) : FieldInfo where
  name := c.spelling
  attrs := c.attributesIn scope
  type := c.info.type
  isStatic := c.info.storage = .static
  isMember := true

def methodInfo (scope : Attributes) (c : Cursor) : MethodInfo where
  name := c.spelling
  attrs := c.attributesIn scope
  params := c.parameterTypes
  returnType := c.info.result
  isStatic := c.info.storage = .static
  declaredType := c.info.type

def ctorInfo (scope : Attributes) (c : Cursor) : CtorInfo where
  attrs := c.attributesIn scope
  params := c.parameterTypes

/-- Adds what a child cursor declares directly to the members of its class. -/
def addMember (scope : Attributes) (m : Members) (c : Cursor) : Members :=
  match c.kind, c.info.access with
  | .constructor, some access => { m with ctors := m.ctors.push access (c.ctorInfo scope) }
  | .fieldDecl, some access => { m with fields := m.fields.push access (c.fieldInfo scope) }
  | .method, some access => { m with methods := m.methods.push access (c.methodInfo scope) }
  | .enumDecl, some access =>
    if c.info.isDefinition then { m with enums := m.enums.push access (c.enumInfo scope) } else m
  | _, _ => m

/-- The members that the children of a class declare. -/
def membersOf (scope : Attributes) (children : List Cursor) : Members :=
  children.foldl (addMember scope) {}

def isClassDefinition (c : Cursor) : Bool :=
  (c.kind = .classDecl || c.kind = .structDecl) && c.info.isDefinition

end Cursor

/-- Records a declaration unless nothing needs it. -/
def recordIfNeeded (siblings : List Decl) (d : Decl) : Except MergeError (List Decl) :=
  if d.needsRecording then record siblings d else .ok siblings

mutual

/-- The declaration of a class cursor: its members, and the nested classes worth keeping. -/
def classDeclOf (file : String) (scope : Attributes) : Cursor → Except MergeError Decl
  | .node i cs => do
    let attrs := (Cursor.node i cs).attributesIn scope
    return .classDecl i.spelling attrs (Cursor.membersOf attrs cs)
      (← visitNested file attrs [] cs)

/-- Records the classes nested in a class. -/
def visitNested (file : String) (scope : Attributes) (siblings : List Decl) :
    List Cursor → Except MergeError (List Decl)
  | [] => .ok siblings
  | c :: rest => do
    if c.isClassDefinition && c.isFrom file then
      visitNested file scope (← recordIfNeeded siblings (← classDeclOf file scope c)) rest
    else visitNested file scope siblings rest

end

mutual

/-- Records what a cursor declares in the scope around it. -/
def visitCursor (file : String) (scope : Attributes) (siblings : List Decl) :
    Cursor → Except MergeError (List Decl)
  | .node i cs =>
    let c := Cursor.node i cs
    if c.isFrom file then
      match i.kind with
      | .namespaceDecl => do
        let attrs := c.attributesIn scope
        record siblings (.namespaceDecl i.spelling attrs (← visitCursors file attrs [] cs))
      | .classDecl | .structDecl => do
        if i.isDefinition then recordIfNeeded siblings (← classDeclOf file scope c)
        else return siblings
      | .enumDecl =>
        if i.isDefinition then recordIfNeeded siblings (.enumDecl (c.enumInfo scope))
        else .ok siblings
      | _ => visitCursors file scope siblings cs
    else .ok siblings

def visitCursors (file : String) (scope : Attributes) (siblings : List Decl) :
    List Cursor → Except MergeError (List Decl)
  | [] => .ok siblings
  | c :: rest => do visitCursors file scope (← visitCursor file scope siblings c) rest

end

/-- Where the cursors of a header come from: the unit above them all, or the reason there is none. -/
abbrev CursorSource := String → Except String Cursor

/-- The declaration tree of a header, given its unit. -/
def visitUnit (file : String) (unit : Cursor) : Except MergeError Decl := do
  return .namespaceDecl "" Attributes.none (← visitCursors file Attributes.none [] unit.children)

/-- Whether a header's text calls for parsing at all. -/
def hasMarker (marker source : String) : Bool :=
  Text.occurs marker.toList source.toList

/-- The declaration tree of a header's text. A header without the marker is not parsed and
contributes nothing. -/
def visitSource (cursors : CursorSource) (marker path source : String) :
    Except VisitError Decl :=
  if hasMarker marker source then
    match cursors path with
    | .error reason => .error (.parse path reason)
    | .ok unit => (visitUnit path unit).mapError (.merge path)
  else .ok Decl.emptyRoot

end HeaderReflect
