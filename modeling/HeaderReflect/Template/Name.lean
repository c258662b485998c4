/-!
The templates of the generator: for one class, one enum, one file and the aggregates, each for
reflection and for bindings.
-/

namespace HeaderReflect

inductive TemplateName where
  | classRefl
  | enumRefl
  | fileRefl
  | reflHeader
  | reflImpl
  | classBinding
  | enumBinding
  | fileBinding
  | bindingHeader
  | bindingImpl
deriving DecidableEq, Repr, Inhabited

namespace TemplateName

/-- All templates in the order in which they are read. -/
def all : List TemplateName :=
  [.classRefl, .enumRefl, .fileRefl, .reflHeader, .reflImpl, .classBinding, .enumBinding,
   .fileBinding, .bindingHeader, .bindingImpl]

def label : TemplateName → String
  | .classRefl => "class_refl"
  | .enumRefl => "enum_refl"
  | .fileRefl => "refl"
  | .reflHeader => "refl_header"
  | .reflImpl => "refl_impl"
  | .classBinding => "class_binding"
  | .enumBinding => "enum_binding"
  | .fileBinding => "binding"
  | .bindingHeader => "binding_header"
  | .bindingImpl => "binding_impl"

end TemplateName

end HeaderReflect
