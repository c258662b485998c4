import HeaderReflect.Proofs.Plan.Classes
import HeaderReflect.Proofs.Template.Lines
import HeaderReflect.Renderer

/-!
What the built-in templates write. The texts are told from the documents, line by line, and each
template writes its text for every document (`Fills`), whatever the strings in it are. So a plan is
always rendered, and so are the aggregates (`builtinTemplates_write`).

An empty signature counts as none. No plan that is made for a header has one
(`castType?_of_planned`).
-/

namespace HeaderReflect

open Template (Value)
open TemplateName (lines slot tag)

/-! ## Texts -/

namespace PropertyDoc

def reflectionLine (p : PropertyDoc) : String :=
  "        .Property(\"" ++ p.registerName ++ "\", &" ++ p.qualifiedFieldName ++ ")"

/-- The type that a method is cast to: its signature, unless that is empty. -/
def castType? (p : PropertyDoc) : Option String := p.signature.filter (· ≠ "")

def plainLine (p : PropertyDoc) : String :=
  "        .AddProperty<&" ++ p.qualifiedFieldName ++ ">(\"" ++ p.registerName ++ "\")"

def castLine (p : PropertyDoc) (type : String) : String :=
  "        .AddProperty<static_cast<" ++ type ++ ">(&" ++ p.qualifiedFieldName ++ ")>(\""
    ++ p.registerName ++ "\")"

def bindingLine (p : PropertyDoc) : String := p.castType?.elim p.plainLine p.castLine

end PropertyDoc

def ClassReflDoc.text (d : ClassReflDoc) : String := lines
  (["    ::nickel::refl::ClassFactory<" ++ d.className ++ ">::Instance()",
    "        .Regist(\"" ++ d.registerName ++ "\")"]
    ++ d.properties.map (·.reflectionLine)
    ++ ["        ;"])

namespace EnumDoc

def reflectionText (d : EnumDoc) : String := lines
  (["    ::nickel::refl::EnumFactory<" ++ d.enumName ++ ">::Instance()",
    "        .Regist(\"" ++ d.registerName ++ "\")"]
    ++ d.items.map (fun item =>
      "        .Add(\"" ++ item.itemRegisterName ++ "\", " ++ item.qualifiedItemName ++ ")")
    ++ ["        ;"])

def bindingText (d : EnumDoc) : String := lines
  (["    module.AddEnum<" ++ d.enumName ++ ">(\"" ++ d.registerName ++ "\")"]
    ++ d.items.map (fun item =>
      "        .AddItem(\"" ++ item.itemRegisterName ++ "\", " ++ item.qualifiedItemName ++ ")")
    ++ ["        .EndEnum();"])

/-- The block of an enum inside the binding of a class. -/
def block (d : EnumDoc) : List String :=
  ["        .AddEnum<" ++ d.enumName ++ ">(\"" ++ d.registerName ++ "\")"]
    ++ d.items.map (fun item =>
      "            .AddItem(\"" ++ item.itemRegisterName ++ "\", " ++ item.qualifiedItemName ++ ")")
    ++ ["        .EndEnum()"]

end EnumDoc

def ClassBindingDoc.text (d : ClassBindingDoc) : String := lines
  (["    module.AddClass<" ++ d.className ++ ">(\"" ++ d.registerName ++ "\")"]
    ++ (d.ctor.map (fun c => "        .AddConstructor<" ++ c.params ++ ">()")
    ++ (d.properties.map (·.bindingLine)
    ++ (d.enums.flatMap (·.block)
    ++ ["        .EndClass();"]))))

namespace FileDoc

/-- A generated file. The fragments end their last line themselves, so that an empty line follows
each. -/
def textWith (libraryLine parameters : String) (d : FileDoc) : String := lines
  (["// Generated by nickel-refl-gen from " ++ d.filePath ++ ". Do not edit.",
    "#pragma once",
    "",
    "#include \"" ++ d.filePath ++ "\"",
    libraryLine,
    "",
    "inline void " ++ d.functionName ++ parameters]
    ++ (d.enums
    ++ (d.classes
    ++ ["\x7d"])))

def reflectionText : FileDoc → String :=
  textWith "#include \"nickel/refl/drefl/factory.hpp\"" "() \x7b"

def bindingText : FileDoc → String :=
  textWith "#include \"nickel/script/binding/binding.hpp\""
    "(::nickel::script::QJSModule& module) \x7b"

end FileDoc

/-- The files for one header: a fragment for each enum document and then for each class document. -/
def FilePlan.texts (plan : FilePlan) : RenderedFile where
  artifactName := plan.artifactName
  reflection := FileDoc.reflectionText
    { filePath := plan.filePath
      functionName := reflFunctionName plan.identifier
      enums := plan.fragments.reflEnums.map (·.reflectionText)
      classes := plan.fragments.reflClasses.map (·.text) }
  binding := FileDoc.bindingText
    { filePath := plan.filePath
      functionName := bindingFunctionName plan.identifier
      enums := plan.fragments.bindingEnums.map (·.bindingText)
      classes := plan.fragments.bindingClasses.map (·.text) }

def includeLine (identifier : String) : String :=
  "#include \"" ++ (identifier ++ artifactExtension) ++ "\""

/-- The files for all headers: an include and a call for each identifier. The headers are the same
for all. -/
def aggregateTexts (identifiers : List String) : RenderedAggregates where
  reflHeader := TemplateName.reflHeaderSource
  reflImpl := lines
    (["// Generated by nickel-refl-gen. Do not edit.",
      "#include \"refl_generate.hpp\""]
      ++ (identifiers.map includeLine
      ++ (["",
           "namespace refl_generate \x7b",
           "",
           "void RegisterReflectionInfo() \x7b"]
      ++ (identifiers.map (fun id => "    " ++ reflFunctionName id ++ "();")
      ++ ["\x7d",
          "",
          "\x7d  // namespace refl_generate"]))))
  bindingHeader := TemplateName.bindingHeaderSource
  bindingImpl := lines
    (["// Generated by nickel-refl-gen. Do not edit.",
      "#include \"script_binding.hpp\"",
      "#include \"nickel/script/binding/binding.hpp\""]
      ++ (identifiers.map includeLine
      ++ (["",
           "namespace script_binding \x7b",
           "",
           "void RegisterScriptBinding(::nickel::script::QJSModule& module) \x7b"]
      ++ (identifiers.map (fun id => "    " ++ bindingFunctionName id ++ "(module);")
      ++ ["\x7d",
          "",
          "\x7d  // namespace script_binding"]))))

/-! ## Templates -/

/-- A template is accepted and writes the text for every document. -/
def Fills {α : Type} (name : TemplateName) (toValue : α → Value) (text : α → String) : Prop :=
  ∃ body, Template.parse name.builtin = .ok body ∧
    ∀ doc, Template.render body (toValue doc) = .ok (text doc)

namespace Fills

open Template (Writes Ends Output)
open Template.Output (line_ok each_ok each_line_ok choose_ok)

theorem of_writes {α : Type} {name : TemplateName} {ls : List String} {f : Output}
    {toValue : α → Value} {text : α → String} (hname : name.builtin = lines ls) (h : Writes ls f)
    (hf : ∀ doc, f (Template.rootScope (toValue doc)) = .ok (text doc)) :
    Fills name toValue text := by
  obtain ⟨body, hparse, hrender⟩ := h.parse
  refine ⟨body, hname ▸ hparse, fun doc => ?_⟩
  rw [hrender, hf]

/-! In each proof the lines of the template are first read and then filled in, in their order. -/

theorem classRefl : Fills .classRefl ClassReflDoc.toValue ClassReflDoc.text := by
  refine of_writes rfl
    (.line (.one_slot (.text rfl rfl) (.slot (.name "className") rfl rfl rfl) (.text rfl rfl)) <|
     .line (.one_slot (.text rfl rfl) (.slot (.name "registerName") rfl rfl rfl) (.text rfl rfl)) <|
     .loop "p" (.name "properties") [_] rfl rfl rfl (fun _ _ => rfl)
       (.line (.two_slots
         (.text rfl rfl) (.slot (.attribute (.name "p") "registerName") rfl rfl rfl)
         (.text rfl rfl) (.slot (.attribute (.name "p") "qualifiedFieldName") rfl rfl rfl)
         (.text rfl rfl)) .nil) <|
     .line (.text rfl rfl) .nil)
    fun d => ?_
  exact line_ok rfl <| line_ok rfl <| each_line_ok rfl (fun _ => line_ok rfl rfl) <| line_ok rfl rfl

theorem enumRefl : Fills .enumRefl EnumDoc.toValue EnumDoc.reflectionText := by
  refine of_writes rfl
    (.line (.one_slot (.text rfl rfl) (.slot (.name "enumName") rfl rfl rfl) (.text rfl rfl)) <|
     .line (.one_slot (.text rfl rfl) (.slot (.name "registerName") rfl rfl rfl) (.text rfl rfl)) <|
     .loop "item" (.name "items") [_] rfl rfl rfl (fun _ _ => rfl)
       (.line (.two_slots
         (.text rfl rfl) (.slot (.attribute (.name "item") "itemRegisterName") rfl rfl rfl)
         (.text rfl rfl) (.slot (.attribute (.name "item") "qualifiedItemName") rfl rfl rfl)
         (.text rfl rfl)) .nil) <|
     .line (.text rfl rfl) .nil)
    fun d => ?_
  exact line_ok rfl <| line_ok rfl <| each_line_ok rfl (fun _ => line_ok rfl rfl) <| line_ok rfl rfl

theorem enumBinding : Fills .enumBinding EnumDoc.toValue EnumDoc.bindingText := by
  refine of_writes rfl
    (.line (.two_slots
       (.text rfl rfl) (.slot (.name "enumName") rfl rfl rfl)
       (.text rfl rfl) (.slot (.name "registerName") rfl rfl rfl) (.text rfl rfl)) <|
     .loop "item" (.name "items") [_] rfl rfl rfl (fun _ _ => rfl)
       (.line (.two_slots
         (.text rfl rfl) (.slot (.attribute (.name "item") "itemRegisterName") rfl rfl rfl)
         (.text rfl rfl) (.slot (.attribute (.name "item") "qualifiedItemName") rfl rfl rfl)
         (.text rfl rfl)) .nil) <|
     .line (.text rfl rfl) .nil)
    fun d => ?_
  exact line_ok rfl <| each_line_ok rfl (fun _ => line_ok rfl rfl) <| line_ok rfl rfl

theorem classBinding : Fills .classBinding ClassBindingDoc.toValue ClassBindingDoc.text := by
  refine of_writes rfl
    (.line (.two_slots
       (.text rfl rfl) (.slot (.name "className") rfl rfl rfl)
       (.text rfl rfl) (.slot (.name "registerName") rfl rfl rfl) (.text rfl rfl)) <|
     .loop "c" (.name "ctor") [_] rfl rfl rfl (fun _ _ => rfl)
       (.line (.one_slot (.text rfl rfl) (.slot (.attribute (.name "c") "params") rfl rfl rfl)
         (.text rfl rfl)) .nil) <|
     .loop "p" (.name "properties") [_, _, _, _, _] rfl rfl rfl (fun _ _ => rfl)
       (.branch (.attribute (.name "p") "signature") [_] [_] rfl rfl rfl (fun _ _ => rfl)
         (.line (.two_slots
           (.append (.append
             (.text rfl rfl) (.slot (.attribute (.name "p") "signature") rfl rfl rfl))
             (.text rfl rfl)) (.slot (.attribute (.name "p") "qualifiedFieldName") rfl rfl rfl)
           (.text rfl rfl) (.slot (.attribute (.name "p") "registerName") rfl rfl rfl)
           (.text rfl rfl)) .nil)
         (.line (.two_slots
           (.text rfl rfl) (.slot (.attribute (.name "p") "qualifiedFieldName") rfl rfl rfl)
           (.text rfl rfl) (.slot (.attribute (.name "p") "registerName") rfl rfl rfl)
           (.text rfl rfl)) .nil)
         .nil) <|
     .loop "e" (.name "enums") [_, _, _, _, _] rfl rfl rfl (fun _ _ => rfl)
       (.line (.two_slots
          (.text rfl rfl) (.slot (.attribute (.name "e") "enumName") rfl rfl rfl)
          (.text rfl rfl) (.slot (.attribute (.name "e") "registerName") rfl rfl rfl)
          (.text rfl rfl)) <|
        .loop "item" (.attribute (.name "e") "items") [_] rfl rfl rfl (fun _ _ => rfl)
          (.line (.two_slots
            (.text rfl rfl) (.slot (.attribute (.name "item") "itemRegisterName") rfl rfl rfl)
            (.text rfl rfl) (.slot (.attribute (.name "item") "qualifiedItemName") rfl rfl rfl)
            (.text rfl rfl)) .nil) <|
        .line (.text rfl rfl) .nil) <|
     .line (.text rfl rfl) .nil)
    fun d => ?_
  refine line_ok rfl <| each_line_ok rfl (fun _ => line_ok rfl rfl) <|
    each_line_ok rfl (fun p => ?_) <|
    each_ok rfl (fun _ => line_ok rfl <| each_line_ok rfl (fun _ => line_ok rfl rfl) <|
      line_ok rfl rfl) <|
    line_ok rfl rfl
  -- What is left is the branch, which has to agree with `castType?` on the signature.
  obtain ⟨registerName, qualifiedFieldName, signature⟩ := p
  rw [Template.Output.append_empty]
  refine choose_ok rfl ?_
  cases signature with
  | none => exact line_ok rfl rfl
  | some type =>
    by_cases htype : type = ""
    · subst htype
      exact line_ok rfl rfl
    · have hcast : PropertyDoc.castType? ⟨registerName, qualifiedFieldName, some type⟩ =
          some type := by simp [PropertyDoc.castType?, htype]
      have htrue : ((Option.map Value.text (some type)).getD .null).isTrue = true := by
        simpa [Value.isTrue] using htype
      rw [if_pos htrue, PropertyDoc.bindingLine, hcast]
      exact line_ok rfl rfl

/-- A loop over fragments writes them as they are. -/
theorem fragments_ok {var : String} {range : Template.Expr} {body rest : Output}
    {scope : Template.Scope} {ls : List String} {toValue : String → Value}
    (fragments : List String)
    (hrange : range.eval scope = .ok (.list (fragments.map toValue)))
    (hbody : ∀ s, body ((var, toValue s) :: scope) = .ok (lines [s]))
    (hrest : rest scope = .ok (lines ls)) :
    (.each var range body ++ rest) scope = .ok (lines (fragments ++ ls)) := by
  have h := each_line_ok hrange hbody hrest
  rwa [List.map_id'] at h

/-- The templates of files differ in the library and in the parameters. -/
theorem file {name : TemplateName} {libraryLine parameters : String}
    (hlibrary : Ends libraryLine (.text libraryLine))
    (hparameters : Ends parameters (.text parameters))
    (hname : name.builtin = lines
      ["// Generated by nickel-refl-gen from " ++ slot "filePath" ++ ". Do not edit.",
       "#pragma once",
       "",
       "#include \"" ++ slot "filePath" ++ "\"",
       libraryLine,
       "",
       "inline void " ++ slot "functionName" ++ parameters,
       tag "for e in enums",
       slot "e.enum",
       tag "endfor",
       tag "for c in classes",
       slot "c.class",
       tag "endfor",
       "\x7d"]) :
    Fills name FileDoc.toValue (FileDoc.textWith libraryLine parameters) := by
  refine of_writes hname
    (.line (.one_slot (.text rfl rfl) (.slot (.name "filePath") rfl rfl rfl) (.text rfl rfl)) <|
     .line (.text rfl rfl) <|
     .line (.text rfl rfl) <|
     .line (.one_slot (.text rfl rfl) (.slot (.name "filePath") rfl rfl rfl) (.text rfl rfl)) <|
     .line hlibrary <|
     .line (.text rfl rfl) <|
     .line (.one_slot (.text rfl rfl) (.slot (.name "functionName") rfl rfl rfl) hparameters) <|
     .loop "e" (.name "enums") [_] rfl rfl rfl (fun _ _ => rfl)
       (.line (.of_prints (.slot (.attribute (.name "e") "enum") rfl rfl rfl)) .nil) <|
     .loop "c" (.name "classes") [_] rfl rfl rfl (fun _ _ => rfl)
       (.line (.of_prints (.slot (.attribute (.name "c") "class") rfl rfl rfl)) .nil) <|
     .line (.text rfl rfl) .nil)
    fun d => ?_
  exact line_ok rfl <| line_ok rfl <| line_ok rfl <| line_ok rfl <| line_ok rfl <| line_ok rfl <|
    line_ok rfl <|
    fragments_ok d.enums rfl (fun _ => line_ok rfl rfl) <|
    fragments_ok d.classes rfl (fun _ => line_ok rfl rfl) <|
    line_ok rfl rfl

theorem fileRefl : Fills .fileRefl FileDoc.toValue FileDoc.reflectionText :=
  file (.text rfl rfl) (.text rfl rfl) rfl

theorem fileBinding : Fills .fileBinding FileDoc.toValue FileDoc.bindingText :=
  file (.text rfl rfl) (.text rfl rfl) rfl

theorem reflHeader {α : Type} (toValue : α → Value) :
    Fills .reflHeader toValue fun _ => TemplateName.reflHeaderSource :=
  of_writes rfl
    (.plain (.text rfl rfl) <| .plain (.text rfl rfl) <| .plain (.text rfl rfl) <|
     .plain (.text rfl rfl) <| .plain (.text rfl rfl) <| .plain (.text rfl rfl) <|
     .plain (.text rfl rfl) <| .plain (.text rfl rfl) .nil)
    fun _ => rfl

theorem bindingHeader {α : Type} (toValue : α → Value) :
    Fills .bindingHeader toValue fun _ => TemplateName.bindingHeaderSource :=
  of_writes rfl
    (.plain (.text rfl rfl) <| .plain (.text rfl rfl) <| .plain (.text rfl rfl) <|
     .plain (.text rfl rfl) <| .plain (.text rfl rfl) <| .plain (.text rfl rfl) <|
     .plain (.text rfl rfl) <| .plain (.text rfl rfl) <| .plain (.text rfl rfl) <|
     .plain (.text rfl rfl) <| .plain (.text rfl rfl) <| .plain (.text rfl rfl) .nil)
    fun _ => rfl

/-- A loop over what the identifiers are mapped to is a loop over the identifiers. -/
theorem range_map {α β : Type} {range : Template.Expr} {scope : Template.Scope} {xs : List α}
    {f : α → β} {toValue : β → Value}
    (h : range.eval scope = .ok (.list ((xs.map f).map toValue))) :
    range.eval scope = .ok (.list (xs.map (toValue ∘ f))) := by
  rwa [List.map_map] at h

theorem reflImpl : Fills .reflImpl (fun ids => (reflAggregate ids).toValue)
    fun ids => (aggregateTexts ids).reflImpl := by
  refine of_writes rfl
    (.line (.text rfl rfl) <| .line (.text rfl rfl) <|
     .loop "h" (.name "headerFiles") [_] rfl rfl rfl (fun _ _ => rfl)
       (.line (.one_slot (.text rfl rfl) (.slot (.attribute (.name "h") "headerFile") rfl rfl rfl)
         (.text rfl rfl)) .nil) <|
     .line (.text rfl rfl) <| .line (.text rfl rfl) <|
     .line (.text rfl rfl) <| .line (.text rfl rfl) <|
     .loop "f" (.name "funcCalls") [_] rfl rfl rfl (fun _ _ => rfl)
       (.line (.one_slot (.text rfl rfl) (.slot (.attribute (.name "f") "funcCall") rfl rfl rfl)
         (.text rfl rfl)) .nil) <|
     .line (.text rfl rfl) <| .line (.text rfl rfl) <| .line (.text rfl rfl) .nil)
    fun ids => ?_
  exact line_ok rfl <| line_ok rfl <|
    each_line_ok (range_map rfl) (fun _ => line_ok rfl rfl) <|
    line_ok rfl <| line_ok rfl <| line_ok rfl <| line_ok rfl <|
    each_line_ok (range_map rfl) (fun _ => line_ok rfl rfl) <|
    line_ok rfl <| line_ok rfl <| line_ok rfl rfl

theorem bindingImpl : Fills .bindingImpl (fun ids => (bindingAggregate ids).toValue)
    fun ids => (aggregateTexts ids).bindingImpl := by
  refine of_writes rfl
    (.line (.text rfl rfl) <| .line (.text rfl rfl) <| .line (.text rfl rfl) <|
     .loop "h" (.name "headerFiles") [_] rfl rfl rfl (fun _ _ => rfl)
       (.line (.one_slot (.text rfl rfl) (.slot (.attribute (.name "h") "headerFile") rfl rfl rfl)
         (.text rfl rfl)) .nil) <|
     .line (.text rfl rfl) <| .line (.text rfl rfl) <|
     .line (.text rfl rfl) <| .line (.text rfl rfl) <|
     .loop "f" (.name "funcCalls") [_] rfl rfl rfl (fun _ _ => rfl)
       (.line (.one_slot (.text rfl rfl) (.slot (.attribute (.name "f") "funcCall") rfl rfl rfl)
         (.text rfl rfl)) .nil) <|
     .line (.text rfl rfl) <| .line (.text rfl rfl) <| .line (.text rfl rfl) .nil)
    fun ids => ?_
  exact line_ok rfl <| line_ok rfl <| line_ok rfl <|
    each_line_ok (range_map rfl) (fun _ => line_ok rfl rfl) <|
    line_ok rfl <| line_ok rfl <| line_ok rfl <| line_ok rfl <|
    each_line_ok (range_map rfl) (fun _ => line_ok rfl rfl) <|
    line_ok rfl <| line_ok rfl <| line_ok rfl rfl

/-- Every template is accepted. -/
theorem accepted (name : TemplateName) : ∃ body, Template.parse name.builtin = .ok body := by
  have of_fills {α : Type} {toValue : α → Value} {text : α → String}
      (h : Fills name toValue text) : ∃ body, Template.parse name.builtin = .ok body := by
    obtain ⟨body, hparse, -⟩ := h
    exact ⟨body, hparse⟩
  cases name with
  | classRefl => exact of_fills classRefl
  | enumRefl => exact of_fills enumRefl
  | fileRefl => exact of_fills fileRefl
  | reflHeader => exact of_fills (reflHeader AggregateDoc.toValue)
  | reflImpl => exact of_fills reflImpl
  | classBinding => exact of_fills classBinding
  | enumBinding => exact of_fills enumBinding
  | fileBinding => exact of_fills fileBinding
  | bindingHeader => exact of_fills (bindingHeader AggregateDoc.toValue)
  | bindingImpl => exact of_fills bindingImpl

end Fills

/-! ## Rendering -/

/-- Sources that are all accepted make a template each. -/
theorem TemplateSet.build_of_accepted {source : TemplateName → String}
    (h : ∀ name, ∃ body, Template.parse (source name) = .ok body) (names : List TemplateName) :
    ∃ set, build (fun name => .ok (source name)) names = .ok set ∧
      ∀ name ∈ names, ∀ body, Template.parse (source name) = .ok body →
        set.find? name = some { name, source := source name, body } := by
  induction names with
  | nil => exact ⟨[], rfl, nofun⟩
  | cons first names ih =>
    obtain ⟨body, hbody⟩ := h first
    obtain ⟨rest, hrest, hfind⟩ := ih
    refine ⟨{ name := first, source := source first, body } :: rest, ?_, ?_⟩
    · simp only [build, hbody, hrest, Except.mapError, bind, Except.bind, pure, Except.pure]
    · intro name hname body' hbody'
      by_cases hfirst : first = name
      · subst hfirst
        rw [hbody] at hbody'
        simp [find?, Except.ok.inj hbody']
      · have hname : name ∈ names := (List.mem_cons.mp hname).resolve_left (Ne.symm hfirst)
        simpa [find?, hfirst] using hfind name hname body' hbody'

/-- A renderer writes what the built-in templates do. -/
def WritesBuiltin (r : Renderer) : Prop :=
  ∀ {α : Type} (name : TemplateName) (toValue : α → Value) (text : α → String),
    Fills name toValue text → ∀ doc, r.render name (toValue doc) = .ok (text doc)

theorem exists_builtinTemplates :
    ∃ set, builtinTemplates = .ok set ∧ WritesBuiltin set.renderer := by
  obtain ⟨set, hset, hfind⟩ := TemplateSet.build_of_accepted Fills.accepted TemplateName.all
  refine ⟨set, hset, fun name toValue text hfills doc => ?_⟩
  obtain ⟨body, hparse, hrender⟩ := hfills
  have hname : name ∈ TemplateName.all := by cases name <;> decide
  simp only [TemplateSet.renderer, TemplateSet.render, hfind name hname body hparse, hrender,
    Except.mapError]

namespace WritesBuiltin

variable {r : Renderer} (h : WritesBuiltin r)

include h

theorem renderAll {α : Type} {name : TemplateName} {toValue : α → Value} {text : α → String}
    (hfills : Fills name toValue text) (docs : List α) :
    r.renderAll name toValue docs = .ok (docs.map text) := by
  induction docs with
  | nil => rfl
  | cons doc docs ih =>
    rw [Renderer.renderAll, h name toValue text hfills, ih]
    rfl

theorem render_plan (plan : FilePlan) : plan.render r = .ok plan.texts := by
  simp only [FilePlan.render, h.renderAll .enumRefl, h.renderAll .classRefl,
    h.renderAll .enumBinding, h.renderAll .classBinding, bind, Except.bind]
  rw [h _ _ _ .fileRefl, h _ _ _ .fileBinding]
  rfl

theorem render_aggregates (identifiers : List String) :
    renderAggregates r identifiers = .ok (aggregateTexts identifiers) := by
  have hreflHeader := h _ _ _ (.reflHeader fun ids => (reflAggregate ids).toValue) identifiers
  have hreflImpl := h _ _ _ .reflImpl identifiers
  have hbindingHeader := h _ _ _ (.bindingHeader fun ids => (bindingAggregate ids).toValue)
    identifiers
  have hbindingImpl := h _ _ _ .bindingImpl identifiers
  simp only [renderAggregates, hreflHeader, hreflImpl, hbindingHeader, hbindingImpl, bind,
    Except.bind]
  rfl

end WritesBuiltin

/-! ## Signatures -/

namespace Plan

theorem pointerType_ne_empty (qualified : String) (m : MethodInfo) :
    pointerType qualified m ≠ "" := by
  unfold pointerType
  split_ifs <;> simp

theorem castType?_methodProperty (qualified : String) (exposed : List MethodInfo)
    (m : MethodInfo) :
    (methodProperty qualified exposed m).castType? =
      (methodProperty qualified exposed m).signature := by
  unfold PropertyDoc.castType? methodProperty
  split_ifs
  · simp [pointerType_ne_empty]
  · rfl

/-- In a plan for a header an entry is cast exactly if it has a signature. -/
theorem castType?_of_planned {memberPrefix path : String} {root : Decl} {c : ClassBindingDoc}
    (hc : c ∈ (planFile memberPrefix path root).fragments.bindingClasses) {p : PropertyDoc}
    (hp : p ∈ c.properties) : p.castType? = p.signature := by
  have hdocs := (classDocs_walk memberPrefix root []).2
  rw [planFile, show ("" : String) = scopeName [] from rfl, hdocs] at hc
  obtain ⟨placed, -, rfl⟩ := List.mem_map.mp hc
  rcases List.mem_append.mp hp with hfield | hmethod
  · obtain ⟨f, -, rfl⟩ := List.mem_map.mp hfield
    rfl
  · obtain ⟨m, -, rfl⟩ := List.mem_map.mp hmethod
    exact castType?_methodProperty ..

end Plan

/-! ## Results -/

/-- **What the built-in templates write.** They are accepted, and with them every plan and every
list of identifiers is rendered to its texts, whatever the strings are. In the plan for a header the
entries that are cast are exactly those with a signature. -/
theorem builtinTemplates_write :
    ∃ set, builtinTemplates = .ok set ∧
      (∀ plan : FilePlan, plan.render set.renderer = .ok plan.texts) ∧
      (∀ identifiers, renderAggregates set.renderer identifiers =
        .ok (aggregateTexts identifiers)) ∧
      ∀ memberPrefix path root, ∀ c ∈ (planFile memberPrefix path root).fragments.bindingClasses,
        ∀ p ∈ c.properties, p.castType? = p.signature := by
  obtain ⟨set, hset, hwrites⟩ := exists_builtinTemplates
  refine ⟨set, hset, hwrites.render_plan, hwrites.render_aggregates, ?_⟩
  intro memberPrefix path root c hc p hp
  exact Plan.castType?_of_planned hc hp

namespace FilePlan.Sample

def blankSignature : PropertyDoc where
  registerName := "f"
  qualifiedFieldName := "::A::f"
  signature := some ""

def blankSignaturePlan : FilePlan where
  identifier := "a"
  filePath := "a.hpp"
  fragments :=
    { bindingClasses := [{ className := "::A", registerName := "A", properties := [blankSignature],
                           enums := [], ctor := [] }] }

end FilePlan.Sample

open FilePlan.Sample in
/-- The entry of `blankSignature` has a signature, and is not cast. -/
theorem empty_signature_not_cast :
    ∃ set file, builtinTemplates = .ok set ∧ blankSignaturePlan.render set.renderer = .ok file ∧
      blankSignature.signature.isSome ∧
      file.binding ≠ FileDoc.bindingText
        { filePath := "a.hpp"
          functionName := bindingFunctionName "a"
          enums := []
          classes := [lines ["    module.AddClass<::A>(\"A\")", blankSignature.castLine "",
            "        .EndClass();"]] } := by
  obtain ⟨set, hset, hwrites⟩ := exists_builtinTemplates
  refine ⟨set, _, hset, hwrites.render_plan blankSignaturePlan, rfl, fun heq => ?_⟩
  have hcast : blankSignature.castType? = none := rfl
  have hplain : ClassBindingDoc.text ⟨"::A", "A", [blankSignature], [], []⟩ =
      lines ["    module.AddClass<::A>(\"A\")", blankSignature.plainLine,
        "        .EndClass();"] := by
    simp [ClassBindingDoc.text, PropertyDoc.bindingLine, hcast]
  have hlines : blankSignature.plainLine = blankSignature.castLine "" := by
    simpa [FilePlan.texts, FileDoc.bindingText, FileDoc.textWith, blankSignaturePlan,
      Template.lines_cons, hplain] using heq
  exact absurd hlines (by decide)

end HeaderReflect
