import HeaderReflect.Template.Value
import HeaderReflect.Tree.Decl

/-!
Declaration trees as plain values: a structure is an object with its fields in order, and a
declaration is an object with one field named for its kind.
-/

namespace HeaderReflect

open Template (Value)

def Value.ofTexts (texts : List String) : Value := .list (texts.map .text)

def Attributes.toValue (a : Attributes) : Value :=
  .object
    [("wants_reflection", .bool a.wantsReflection),
     ("force_no_reflection", .bool a.forceNoReflection),
     ("wants_script", .bool a.wantsScript),
     ("force_no_script", .bool a.forceNoScript)]

def ByAccess.toValue {α : Type} (item : α → Value) (lists : ByAccess α) : Value :=
  .object
    [("public", .list (lists.pub.map item)),
     ("protected", .list (lists.prot.map item)),
     ("private", .list (lists.priv.map item))]

def EnumInfo.toValue (e : EnumInfo) : Value :=
  .object
    [("name", .text e.name), ("attrs", e.attrs.toValue), ("items", Value.ofTexts e.items)]

def FieldInfo.toValue (f : FieldInfo) : Value :=
  .object
    [("name", .text f.name), ("attrs", f.attrs.toValue), ("ty", .text f.type),
     ("is_static", .bool f.isStatic), ("is_member", .bool f.isMember)]

def MethodInfo.toValue (m : MethodInfo) : Value :=
  .object
    [("name", .text m.name), ("attrs", m.attrs.toValue), ("params", Value.ofTexts m.params),
     ("return_type", .text m.returnType), ("is_static", .bool m.isStatic),
     ("declared_type", .text m.declaredType)]

def CtorInfo.toValue (c : CtorInfo) : Value :=
  .object [("attrs", c.attrs.toValue), ("params", Value.ofTexts c.params)]

/-- The name of a kind in a value. -/
def Kind.tag : Kind → String
  | .namespaceScope => "Namespace"
  | .classScope => "Class"
  | .enumeration => "Enum"
  | .dataMember => "Variable"
  | .memberFunction => "Function"
  | .constructor => "Constructor"

namespace Decl

mutual

/-- The fields of a declaration without its kind. -/
def body : Decl → Value
  | .namespaceDecl name attrs children =>
    .object
      [("name", .text name), ("attrs", attrs.toValue), ("children", .list (toValues children))]
  | .classDecl name attrs members children =>
    .object
      [("name", .text name), ("attrs", attrs.toValue),
       ("fields", members.fields.toValue FieldInfo.toValue),
       ("methods", members.methods.toValue MethodInfo.toValue),
       ("enums", members.enums.toValue EnumInfo.toValue),
       ("ctors", members.ctors.toValue CtorInfo.toValue),
       ("children", .list (toValues children))]
  | .enumDecl e => e.toValue
  | .fieldDecl f => f.toValue
  | .methodDecl m => m.toValue
  | .ctorDecl c => c.toValue

def toValues : List Decl → List Value
  | [] => []
  | d :: rest => .object [(d.kind.tag, d.body)] :: toValues rest

end

def toValue (d : Decl) : Value :=
  .object [(d.kind.tag, d.body)]

end Decl

end HeaderReflect
