import HeaderReflect.Template.Value

/-!
The documents that templates are filled from, and their form as template values. The order of the
fields is the order in which a document is written out.
-/

namespace HeaderReflect

open Template (Value)

/-- A registered field or method. The signature is the pointer type an overloaded method is cast
to. -/
structure PropertyDoc where
  registerName : String
  qualifiedFieldName : String
  signature : Option String
deriving DecidableEq, Repr, Inhabited

structure ClassReflDoc where
  className : String
  registerName : String
  properties : List PropertyDoc
deriving DecidableEq, Repr, Inhabited

structure EnumItemDoc where
  itemRegisterName : String
  qualifiedItemName : String
deriving DecidableEq, Repr, Inhabited

structure EnumDoc where
  enumName : String
  registerName : String
  items : List EnumItemDoc
deriving DecidableEq, Repr, Inhabited

/-- The parameter types of a constructor, joined by commas. -/
structure CtorDoc where
  params : String
deriving DecidableEq, Repr, Inhabited

structure ClassBindingDoc where
  className : String
  registerName : String
  properties : List PropertyDoc
  enums : List EnumDoc
  ctor : List CtorDoc
deriving DecidableEq, Repr, Inhabited

/-- One generated file: the rendered enums and classes between its fixed parts. -/
structure FileDoc where
  filePath : String
  functionName : String
  enums : List String
  classes : List String
deriving DecidableEq, Repr, Inhabited

/-- The files that include all others and call their registration functions. -/
structure AggregateDoc where
  headerFiles : List String
  funcCalls : List String
deriving DecidableEq, Repr, Inhabited

def PropertyDoc.toValue (d : PropertyDoc) : Value :=
  .object
    [("registerName", .text d.registerName), ("qualifiedFieldName", .text d.qualifiedFieldName),
     ("signature", (d.signature.map .text).getD .null)]

def ClassReflDoc.toValue (d : ClassReflDoc) : Value :=
  .object
    [("className", .text d.className), ("registerName", .text d.registerName),
     ("properties", .list (d.properties.map (·.toValue)))]

def EnumItemDoc.toValue (d : EnumItemDoc) : Value :=
  .object
    [("itemRegisterName", .text d.itemRegisterName),
     ("qualifiedItemName", .text d.qualifiedItemName)]

def EnumDoc.toValue (d : EnumDoc) : Value :=
  .object
    [("enumName", .text d.enumName), ("registerName", .text d.registerName),
     ("items", .list (d.items.map (·.toValue)))]

def CtorDoc.toValue (d : CtorDoc) : Value :=
  .object [("params", .text d.params)]

def ClassBindingDoc.toValue (d : ClassBindingDoc) : Value :=
  .object
    [("className", .text d.className), ("registerName", .text d.registerName),
     ("properties", .list (d.properties.map (·.toValue))),
     ("enums", .list (d.enums.map (·.toValue))), ("ctor", .list (d.ctor.map (·.toValue)))]

def FileDoc.toValue (d : FileDoc) : Value :=
  .object
    [("filePath", .text d.filePath), ("functionName", .text d.functionName),
     ("enums", .list (d.enums.map fun e => .object [("enum", .text e)])),
     ("classes", .list (d.classes.map fun c => .object [("class", .text c)]))]

def AggregateDoc.toValue (d : AggregateDoc) : Value :=
  .object
    [("headerFiles", .list (d.headerFiles.map fun h => .object [("headerFile", .text h)])),
     ("funcCalls", .list (d.funcCalls.map fun f => .object [("funcCall", .text f)]))]

end HeaderReflect
