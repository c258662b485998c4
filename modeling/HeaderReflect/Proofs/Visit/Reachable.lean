import HeaderReflect.Plan.Basic
import HeaderReflect.Visit

/-!
The classes of a header that can be reached from its unit, and what can be read off their cursors
alone: which documents a class is to have and what these say. Nothing here knows of declaration
trees; a wish is a tag on the way down to a cursor, with no veto on the way.
-/

namespace HeaderReflect

/-- The two kinds of documents that are generated. -/
inductive Stream where
  | reflection
  | script
deriving DecidableEq, Repr

/-- The tag that asks for a document. -/
def Stream.need : Stream → String
  | .reflection => "refl"
  | .script => "script"

/-- The tag that rules a document out. -/
def Stream.veto : Stream → String
  | .reflection => "norefl"
  | .script => "noscript"

namespace Cursor

/-- The tags of the last annotation on the cursor. -/
def tags (c : Cursor) : List (List Char) :=
  match c.annotationText? with
  | some text => ((Attributes.body? text.toList).map Attributes.tags).getD []
  | none => []

def hasTag (tag : String) (c : Cursor) : Bool := c.tags.contains tag.toList

/-- Whether a cursor is looked through for what stands below it. -/
def isTransparent (c : Cursor) : Bool :=
  c.kind ≠ .namespaceDecl && c.kind ≠ .classDecl && c.kind ≠ .structDecl && c.kind ≠ .enumDecl

end Cursor

/-- Whether somewhere on the way down the need is stated, and nowhere the veto. -/
def Stream.isAsked (s : Stream) (way : List Cursor) : Bool :=
  way.any (·.hasTag s.need) && !way.any (·.hasTag s.veto)

/-- A class cursor with the namespaces and classes around it, outermost first. -/
structure ReachedClass where
  scopes : List Cursor
  cursor : Cursor

/-! ## Reachability -/

mutual

/-- A class in the given scopes and the classes that can be reached through it: from class to
nested class, as long as the definitions are from the file. -/
def classesFrom (file : String) (scopes : List Cursor) : Cursor → List ReachedClass
  | .node i cs => ⟨scopes, .node i cs⟩ :: nestedClasses file (scopes ++ [.node i cs]) cs

def nestedClasses (file : String) (scopes : List Cursor) : List Cursor → List ReachedClass
  | [] => []
  | c :: rest =>
    (if c.isClassDefinition && c.isFrom file then classesFrom file scopes c else [])
      ++ nestedClasses file scopes rest

end

mutual

/-- The classes that can be reached through a cursor: down through namespaces and transparent
cursors of the file to a class definition of the file, and on from there. -/
def classesBelow (file : String) (scopes : List Cursor) : Cursor → List ReachedClass
  | .node i cs =>
    let c := Cursor.node i cs
    if c.isFrom file then
      if c.kind = .namespaceDecl then classesBelowAll file (scopes ++ [c]) cs
      else if c.isClassDefinition then classesFrom file scopes c
      else if c.isTransparent then classesBelowAll file scopes cs
      else []
    else []

def classesBelowAll (file : String) (scopes : List Cursor) : List Cursor → List ReachedClass
  | [] => []
  | c :: rest => classesBelow file scopes c ++ classesBelowAll file scopes rest

end

/-- The classes of a unit that can be reached in the given file. -/
def reachableClasses (file : String) (unit : Cursor) : List ReachedClass :=
  classesBelowAll file [] unit.children

namespace ReachedClass

/-- The scopes around the class and the class itself. -/
def chain (r : ReachedClass) : List Cursor := r.scopes ++ [r.cursor]

/-- The names of the scopes and the name of the class. -/
def path (r : ReachedClass) : List String × String :=
  (r.scopes.map (·.spelling), r.cursor.spelling)

/-! ## Documents -/

/-- The names on the way down, each behind `::`; unnamed scopes add nothing. -/
def qualifiedName (r : ReachedClass) : String :=
  ((r.chain.map (·.spelling)).filter (· ≠ "")).foldl (fun q name => q ++ "::" ++ name) ""

/-- The public children of a kind, in order. -/
def publicChildren (r : ReachedClass) (kind : CursorKind) : List Cursor :=
  r.cursor.children.filter fun c => c.kind = kind && c.info.access = some .isPublic

/-- Whether a member of the class is asked for. -/
def asksFor (r : ReachedClass) (s : Stream) (member : Cursor) : Bool :=
  s.isAsked (r.chain ++ [member])

/-- The public children of a kind that are asked for. -/
def exposed (r : ReachedClass) (s : Stream) (kind : CursorKind) : List Cursor :=
  (r.publicChildren kind).filter (r.asksFor s)

def fieldDoc (memberPrefix : String) (r : ReachedClass) (field : Cursor) : PropertyDoc where
  registerName := Plan.exposedName memberPrefix field.spelling
  qualifiedFieldName := r.qualifiedName ++ "::" ++ field.spelling
  signature := none

/-- A method; the signature is told where another exposed method has its name. -/
def methodDoc (r : ReachedClass) (method : Cursor) : PropertyDoc where
  registerName := method.spelling
  qualifiedFieldName := r.qualifiedName ++ "::" ++ method.spelling
  signature :=
    if 1 < ((r.exposed .script .method).filter (·.spelling = method.spelling)).length then
      some (Plan.pointerType r.qualifiedName (method.methodInfo Attributes.none))
    else none

def enumDoc (r : ReachedClass) (e : Cursor) : EnumDoc :=
  let qualified := Plan.qualify r.qualifiedName e.spelling
  { enumName := qualified
    registerName := e.spelling
    items := (e.children.filter (·.kind = .enumConstant)).map fun constant =>
      { itemRegisterName := constant.spelling
        qualifiedItemName := qualified ++ "::" ++ constant.spelling } }

/-- The reflection document of the class. -/
def reflDoc (memberPrefix : String) (r : ReachedClass) : ClassReflDoc where
  className := r.qualifiedName
  registerName := r.cursor.spelling
  properties := (r.exposed .reflection .fieldDecl).map (r.fieldDoc memberPrefix)

/-- The binding document of the class: fields and methods, enums that are defined in it, and its
first public constructor if that one is asked for. -/
def bindingDoc (memberPrefix : String) (r : ReachedClass) : ClassBindingDoc where
  className := r.qualifiedName
  registerName := r.cursor.spelling
  properties :=
    (r.exposed .script .fieldDecl).map (r.fieldDoc memberPrefix)
      ++ (r.exposed .script .method).map r.methodDoc
  enums := ((r.exposed .script .enumDecl).filter (·.info.isDefinition)).map r.enumDoc
  ctor := (((r.publicChildren .constructor).head?.filter (r.asksFor .script)).map fun c =>
    { params := Text.joinWith "," c.parameterTypes }).toList

end ReachedClass

end HeaderReflect
