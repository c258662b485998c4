import HeaderReflect.Tree.Members

/-!
The declaration tree of a header. Namespaces and classes are scopes and own what is nested in
them; the members of a class stand in its access lists.
-/

namespace HeaderReflect

inductive Kind where
  | namespaceScope
  | classScope
  | enumeration
  | dataMember
  | memberFunction
  | constructor
deriving DecidableEq, Repr, Inhabited

def Kind.label : Kind → String
  | .namespaceScope => "namespace"
  | .classScope => "class"
  | .enumeration => "enum"
  | .dataMember => "variable"
  | .memberFunction => "function"
  | .constructor => "constructor"

inductive Decl where
  | namespaceDecl (name : String) (attrs : Attributes) (children : List Decl)
  | classDecl (name : String) (attrs : Attributes) (members : Members) (children : List Decl)
  | enumDecl (info : EnumInfo)
  | fieldDecl (info : FieldInfo)
  | methodDecl (info : MethodInfo)
  | ctorDecl (info : CtorInfo)
deriving Repr, Inhabited

namespace Decl

/-- The empty tree: an unnamed namespace without children. -/
def emptyRoot : Decl := .namespaceDecl "" Attributes.none []

/-- The declared name; a constructor has none. -/
def name : Decl → String
  | .namespaceDecl n _ _ => n
  | .classDecl n _ _ _ => n
  | .enumDecl e => e.name
  | .fieldDecl f => f.name
  | .methodDecl m => m.name
  | .ctorDecl _ => ""

def kind : Decl → Kind
  | .namespaceDecl .. => .namespaceScope
  | .classDecl .. => .classScope
  | .enumDecl _ => .enumeration
  | .fieldDecl _ => .dataMember
  | .methodDecl _ => .memberFunction
  | .ctorDecl _ => .constructor

def attrs : Decl → Attributes
  | .namespaceDecl _ a _ => a
  | .classDecl _ a _ _ => a
  | .enumDecl e => e.attrs
  | .fieldDecl f => f.attrs
  | .methodDecl m => m.attrs
  | .ctorDecl c => c.attrs

/-- What is nested in a scope; nothing for a declaration that is no scope. -/
def children : Decl → List Decl
  | .namespaceDecl _ _ cs => cs
  | .classDecl _ _ _ cs => cs
  | _ => []

/-- Whether nothing is nested in the declaration. -/
def isEmpty (d : Decl) : Bool := d.children.isEmpty

/-- Whether the tree is the empty root itself. -/
def isEmptyRoot : Decl → Bool
  | .namespaceDecl n a [] => n == "" && a == Attributes.none
  | _ => false

/-- What tells siblings apart. -/
def key (d : Decl) : String × Kind := (d.name, d.kind)

mutual

/-- Number of declarations on the longest way down. -/
def height : Decl → Nat
  | .namespaceDecl _ _ cs => heightAll cs + 1
  | .classDecl _ _ _ cs => heightAll cs + 1
  | _ => 1

def heightAll : List Decl → Nat
  | [] => 0
  | d :: rest => max d.height (heightAll rest)

end

mutual

/-- Whether the declaration has to be kept: it needs reflection or scripting itself, or something
emitted independently of it does. A namespace has no need of its own. -/
def needsRecording : Decl → Bool
  | .namespaceDecl _ _ cs => anyNeedsRecording cs
  | .classDecl _ a m cs =>
    a.anyNeed || anyNeedsRecording cs || m.enums.pub.any (·.attrs.anyNeed)
  | .enumDecl e => e.attrs.anyNeed
  | .fieldDecl f => f.attrs.anyNeed
  | .methodDecl m => m.attrs.anyNeed
  | .ctorDecl c => c.attrs.anyNeed

def anyNeedsRecording : List Decl → Bool
  | [] => false
  | d :: rest => d.needsRecording || anyNeedsRecording rest

end

end Decl

end HeaderReflect
