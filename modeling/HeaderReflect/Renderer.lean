import HeaderReflect.Fault
import HeaderReflect.Json.Compact
import HeaderReflect.Path.Components
import HeaderReflect.Plan.Basic
import HeaderReflect.Template.Builtin
import HeaderReflect.Template.Statement

/-!
Renderers turn documents into text. The usual one fills templates, of which any can be replaced;
another one writes the document itself out.
-/

namespace HeaderReflect

open Template (Value)

inductive RenderError where
  | template (name : TemplateName) (fault : Template.Fault)
  | unreadable (path : String) (fault : IoFault)
deriving DecidableEq, Repr

/-- A renderer, with the texts that decide what it writes. -/
structure Renderer where
  render : TemplateName → Value → Except RenderError String
  imprint : List String

/-- A template with its source and its statements. -/
structure CompiledTemplate where
  name : TemplateName
  source : String
  body : List Template.Stmt

/-- The templates of a renderer. -/
abbrev TemplateSet := List CompiledTemplate

namespace TemplateSet

/-- Reads and compiles the named templates in order, up to the first failure. -/
def build (source : TemplateName → Except RenderError String) :
    List TemplateName → Except RenderError TemplateSet
  | [] => .ok []
  | name :: rest => do
    let text ← source name
    let body ← (Template.parse text).mapError (.template name)
    return { name, source := text, body } :: (← build source rest)

def find? (set : TemplateSet) (name : TemplateName) : Option CompiledTemplate :=
  List.find? (fun (t : CompiledTemplate) => t.name = name) set

def render (set : TemplateSet) (name : TemplateName) (doc : Value) : Except RenderError String :=
  match set.find? name with
  | some t => (Template.render t.body doc).mapError (.template name)
  | none => .error (.template name .undefinedValue)

/-- The renderer that fills the templates. -/
def renderer (set : TemplateSet) : Renderer where
  render := set.render
  imprint := set.flatMap fun t => [t.name.label, t.source]

end TemplateSet

/-- The templates as built in. -/
def builtinTemplates : Except RenderError TemplateSet :=
  TemplateSet.build (fun name => .ok name.builtin) TemplateName.all

/-- The templates with those replaced for which `read` gives a source. A source that is not found
leaves the built-in one in place. -/
def overriddenTemplates (dir : String) (read : String → Except IoFault String) :
    Except RenderError TemplateSet :=
  TemplateSet.build
    (fun name =>
      let path := Path.join dir (name.label ++ ".jinja")
      match read path with
      | .ok source => .ok source
      | .error .notFound => .ok name.builtin
      | .error fault => .error (.unreadable path fault))
    TemplateName.all

/-- The renderer that writes the template's name and the document as JSON. -/
def jsonRenderer : Renderer where
  render name doc := .ok (name.label ++ " " ++ Json.compact doc)
  imprint := []

/-- The texts of the documents, one after another. -/
def Renderer.renderAll {α : Type} (r : Renderer) (name : TemplateName) (toValue : α → Value) :
    List α → Except RenderError (List String)
  | [] => .ok []
  | doc :: rest => do return (← r.render name (toValue doc)) :: (← r.renderAll name toValue rest)

/-- The two files generated for one header. -/
structure RenderedFile where
  artifactName : String
  reflection : String
  binding : String
deriving DecidableEq, Repr, Inhabited

def FilePlan.render (plan : FilePlan) (r : Renderer) : Except RenderError RenderedFile := do
  let reflEnums ← r.renderAll .enumRefl (·.toValue) plan.fragments.reflEnums
  let reflClasses ← r.renderAll .classRefl (·.toValue) plan.fragments.reflClasses
  let bindingEnums ← r.renderAll .enumBinding (·.toValue) plan.fragments.bindingEnums
  let bindingClasses ← r.renderAll .classBinding (·.toValue) plan.fragments.bindingClasses
  let reflection : FileDoc :=
    { filePath := plan.filePath, functionName := reflFunctionName plan.identifier,
      enums := reflEnums, classes := reflClasses }
  let binding : FileDoc :=
    { filePath := plan.filePath, functionName := bindingFunctionName plan.identifier,
      enums := bindingEnums, classes := bindingClasses }
  return { artifactName := plan.artifactName,
           reflection := ← r.render .fileRefl reflection.toValue,
           binding := ← r.render .fileBinding binding.toValue }

/-- The four files that speak for all headers. -/
structure RenderedAggregates where
  reflHeader : String
  reflImpl : String
  bindingHeader : String
  bindingImpl : String
deriving DecidableEq, Repr, Inhabited

def renderAggregates (r : Renderer) (identifiers : List String) :
    Except RenderError RenderedAggregates := do
  let refl := (reflAggregate identifiers).toValue
  let binding := (bindingAggregate identifiers).toValue
  return { reflHeader := ← r.render .reflHeader refl,
           reflImpl := ← r.render .reflImpl refl,
           bindingHeader := ← r.render .bindingHeader binding,
           bindingImpl := ← r.render .bindingImpl binding }

end HeaderReflect
