import HeaderReflect.Path.Key
import HeaderReflect.Plan.Document
import HeaderReflect.Text.Blank
import HeaderReflect.Tree.Decl

/-!
What is generated for one header: a walk over its declaration tree that collects documents for
reflection and, independently, for script bindings. In each scope enums come first, then what is
nested, and a class comes after everything nested in it. Only public members are exposed.
-/

namespace HeaderReflect

/-- The documents of one or more declarations, in walk order. -/
structure Fragments where
  reflEnums : List EnumDoc := []
  reflClasses : List ClassReflDoc := []
  bindingEnums : List EnumDoc := []
  bindingClasses : List ClassBindingDoc := []
deriving DecidableEq, Repr, Inhabited

def Fragments.append (a b : Fragments) : Fragments where
  reflEnums := a.reflEnums ++ b.reflEnums
  reflClasses := a.reflClasses ++ b.reflClasses
  bindingEnums := a.bindingEnums ++ b.bindingEnums
  bindingClasses := a.bindingClasses ++ b.bindingClasses

instance : Append Fragments := ⟨Fragments.append⟩

namespace Plan

/-- A name inside a scope. An unnamed scope adds nothing. -/
def qualify (scope name : String) : String :=
  if name = "" then scope else scope ++ "::" ++ name

def enumDoc (scope : String) (e : EnumInfo) : EnumDoc where
  enumName := qualify scope e.name
  registerName := e.name
  items := e.items.map fun item =>
    { itemRegisterName := item, qualifiedItemName := qualify scope e.name ++ "::" ++ item }

/-- A field's exposed name: without the member prefix, unless nothing else is left. -/
def exposedName (memberPrefix name : String) : String :=
  match Text.after? memberPrefix.toList name.toList with
  | some [] => name
  | some rest => String.ofList rest
  | none => name

def fieldProperty (memberPrefix qualified : String) (f : FieldInfo) : PropertyDoc where
  registerName := exposedName memberPrefix f.name
  qualifiedFieldName := qualified ++ "::" ++ f.name
  signature := none

/-- What follows the parameter list in a declared type, such as `const`. -/
def qualifiers (declaredType : String) : String :=
  match Text.afterLast? ')' declaredType.toList with
  | some rest => String.ofList (Text.trimBlanks rest)
  | none => ""

/-- The type of a pointer to the method. -/
def pointerType (qualified : String) (m : MethodInfo) : String :=
  let params := Text.joinWith ", " m.params
  if m.isStatic then m.returnType ++ " (*)(" ++ params ++ ")"
  else
    let pointer := m.returnType ++ " (" ++ qualified ++ "::*)(" ++ params ++ ")"
    if qualifiers m.declaredType = "" then pointer
    else pointer ++ " " ++ qualifiers m.declaredType

/-- A method among the exposed ones; where one of them shares its name, its pointer type is told
along. -/
def methodProperty (qualified : String) (exposed : List MethodInfo) (m : MethodInfo) :
    PropertyDoc where
  registerName := m.name
  qualifiedFieldName := qualified ++ "::" ++ m.name
  signature :=
    if 1 < (exposed.filter (·.name = m.name)).length then some (pointerType qualified m) else none

def classReflDoc (memberPrefix qualified name : String) (m : Members) : ClassReflDoc where
  className := qualified
  registerName := name
  properties :=
    (m.fields.pub.filter (·.attrs.wantsReflection)).map (fieldProperty memberPrefix qualified)

/-- The public methods a binding exposes. -/
def scriptedMethods (m : Members) : List MethodInfo :=
  m.methods.pub.filter (·.attrs.wantsScript)

/-- The binding of a class: fields, then methods, the nested enums, and the first public
constructor if that is wanted. -/
def classBindingDoc (memberPrefix qualified name : String) (m : Members) : ClassBindingDoc where
  className := qualified
  registerName := name
  properties :=
    (m.fields.pub.filter (·.attrs.wantsScript)).map (fieldProperty memberPrefix qualified)
      ++ (scriptedMethods m).map (methodProperty qualified (scriptedMethods m))
  enums := (m.enums.pub.filter (·.attrs.wantsScript)).map (enumDoc qualified)
  ctor := ((m.ctors.pub.head?.filter (·.attrs.wantsScript)).map fun c =>
    { params := Text.joinWith "," c.params }).toList

/-- An enum in a scope. -/
def scopeEnum (scope : String) (e : EnumInfo) : Fragments where
  reflEnums := if e.attrs.wantsReflection then [enumDoc scope e] else []
  bindingEnums := if e.attrs.wantsScript then [enumDoc scope e] else []

/-- An enum nested in a class. A scripted class binds its enums itself. -/
def classEnum (classAttrs : Attributes) (qualified : String) (e : EnumInfo) : Fragments where
  reflEnums := if e.attrs.wantsReflection then [enumDoc qualified e] else []
  bindingEnums :=
    if e.attrs.wantsScript && !classAttrs.wantsScript then [enumDoc qualified e] else []

/-- A class's own documents. -/
def classOwn (memberPrefix qualified name : String) (attrs : Attributes) (m : Members) :
    Fragments where
  reflClasses :=
    if attrs.wantsReflection then [classReflDoc memberPrefix qualified name m] else []
  bindingClasses :=
    if attrs.wantsScript then [classBindingDoc memberPrefix qualified name m] else []

def concat (parts : List Fragments) : Fragments :=
  parts.foldr (· ++ ·) {}

/-- The enums among a scope's children. -/
def enumsOf (children : List Decl) : List EnumInfo :=
  children.filterMap fun
    | .enumDecl e => some e
    | _ => none

mutual

/-- The documents of a declaration inside a scope. -/
def walk (memberPrefix scope : String) : Decl → Fragments
  | .namespaceDecl name _ children =>
    let inside := qualify scope name
    concat ((enumsOf children).map (scopeEnum inside)) ++ walkNested memberPrefix inside children
  | .classDecl name attrs members children =>
    let inside := qualify scope name
    concat (members.enums.pub.map (classEnum attrs inside))
      ++ (concat ((enumsOf children).map (scopeEnum inside))
        ++ walkNested memberPrefix inside children)
      ++ classOwn memberPrefix inside name attrs members
  | .enumDecl e => scopeEnum scope e
  | _ => {}

/-- The documents of a scope's children that are no enums. -/
def walkNested (memberPrefix scope : String) : List Decl → Fragments
  | [] => {}
  | .enumDecl _ :: rest => walkNested memberPrefix scope rest
  | d :: rest => walk memberPrefix scope d ++ walkNested memberPrefix scope rest

end

end Plan

/-- Extension of the generated files. -/
def artifactExtension : String := ".hpp"

def reflFunctionName (identifier : String) : String :=
  "register_" ++ identifier ++ "_ReflInfo"

def bindingFunctionName (identifier : String) : String :=
  "register_" ++ identifier ++ "_QJSBinding"

structure FilePlan where
  identifier : String
  filePath : String
  fragments : Fragments
deriving DecidableEq, Repr, Inhabited

/-- The plan for the header included as `path`. -/
def planFile (memberPrefix path : String) (root : Decl) : FilePlan where
  identifier := Path.identifier path
  filePath := Path.normalize path
  fragments := Plan.walk memberPrefix "" root

def FilePlan.artifactName (plan : FilePlan) : String :=
  plan.identifier ++ artifactExtension

/-- The aggregate document over the generated files, given their identifiers in order. -/
def aggregateDoc (functionName : String → String) (identifiers : List String) :
    AggregateDoc where
  headerFiles := identifiers.map (· ++ artifactExtension)
  funcCalls := identifiers.map functionName

def reflAggregate : List String → AggregateDoc := aggregateDoc reflFunctionName

def bindingAggregate : List String → AggregateDoc := aggregateDoc bindingFunctionName

end HeaderReflect
