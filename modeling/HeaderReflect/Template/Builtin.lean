import HeaderReflect.Template.Name

/-!
The built-in template sources, line by line.
-/

namespace HeaderReflect.TemplateName

/-- A tag that writes the value of an expression. -/
def slot (expr : String) : String := "\x7b\x7b " ++ expr ++ " \x7d\x7d"

/-- A block tag. -/
def tag (words : String) : String := "\x7b% " ++ words ++ " %\x7d"

/-- The lines, each with its end. -/
def lines (ls : List String) : String := String.join (ls.map (· ++ "\n"))

def classReflSource : String := lines
    ["    ::nickel::refl::ClassFactory<" ++ slot "className" ++ ">::Instance()",
     "        .Regist(\"" ++ slot "registerName" ++ "\")",
     tag "for p in properties",
     "        .Property(\"" ++ slot "p.registerName" ++ "\", &" ++ slot "p.qualifiedFieldName"
       ++ ")",
     tag "endfor",
     "        ;"]

def enumReflSource : String := lines
    ["    ::nickel::refl::EnumFactory<" ++ slot "enumName" ++ ">::Instance()",
     "        .Regist(\"" ++ slot "registerName" ++ "\")",
     tag "for item in items",
     "        .Add(\"" ++ slot "item.itemRegisterName" ++ "\", "
       ++ slot "item.qualifiedItemName" ++ ")",
     tag "endfor",
     "        ;"]

def fileReflSource : String := lines
    ["// Generated by nickel-refl-gen from " ++ slot "filePath" ++ ". Do not edit.",
     "#pragma once",
     "",
     "#include \"" ++ slot "filePath" ++ "\"",
     "#include \"nickel/refl/drefl/factory.hpp\"",
     "",
     "inline void " ++ slot "functionName" ++ "() \x7b",
     tag "for e in enums",
     slot "e.enum",
     tag "endfor",
     tag "for c in classes",
     slot "c.class",
     tag "endfor",
     "\x7d"]

def reflHeaderSource : String := lines
    ["// Generated by nickel-refl-gen. Do not edit.",
     "#pragma once",
     "",
     "namespace refl_generate \x7b",
     "",
     "void RegisterReflectionInfo();",
     "",
     "\x7d  // namespace refl_generate"]

def reflImplSource : String := lines
    ["// Generated by nickel-refl-gen. Do not edit.",
     "#include \"refl_generate.hpp\"",
     tag "for h in headerFiles",
     "#include \"" ++ slot "h.headerFile" ++ "\"",
     tag "endfor",
     "",
     "namespace refl_generate \x7b",
     "",
     "void RegisterReflectionInfo() \x7b",
     tag "for f in funcCalls",
     "    " ++ slot "f.funcCall" ++ "();",
     tag "endfor",
     "\x7d",
     "",
     "\x7d  // namespace refl_generate"]

def classBindingSource : String := lines
    ["    module.AddClass<" ++ slot "className" ++ ">(\"" ++ slot "registerName" ++ "\")",
     tag "for c in ctor",
     "        .AddConstructor<" ++ slot "c.params" ++ ">()",
     tag "endfor",
     tag "for p in properties",
     tag "if p.signature",
     "        .AddProperty<static_cast<" ++ slot "p.signature" ++ ">(&"
       ++ slot "p.qualifiedFieldName" ++ ")>(\"" ++ slot "p.registerName" ++ "\")",
     tag "else",
     "        .AddProperty<&" ++ slot "p.qualifiedFieldName" ++ ">(\"" ++ slot "p.registerName"
       ++ "\")",
     tag "endif",
     tag "endfor",
     tag "for e in enums",
     "        .AddEnum<" ++ slot "e.enumName" ++ ">(\"" ++ slot "e.registerName" ++ "\")",
     tag "for item in e.items",
     "            .AddItem(\"" ++ slot "item.itemRegisterName" ++ "\", "
       ++ slot "item.qualifiedItemName" ++ ")",
     tag "endfor",
     "        .EndEnum()",
     tag "endfor",
     "        .EndClass();"]

def enumBindingSource : String := lines
    ["    module.AddEnum<" ++ slot "enumName" ++ ">(\"" ++ slot "registerName" ++ "\")",
     tag "for item in items",
     "        .AddItem(\"" ++ slot "item.itemRegisterName" ++ "\", "
       ++ slot "item.qualifiedItemName" ++ ")",
     tag "endfor",
     "        .EndEnum();"]

def fileBindingSource : String := lines
    ["// Generated by nickel-refl-gen from " ++ slot "filePath" ++ ". Do not edit.",
     "#pragma once",
     "",
     "#include \"" ++ slot "filePath" ++ "\"",
     "#include \"nickel/script/binding/binding.hpp\"",
     "",
     "inline void " ++ slot "functionName" ++ "(::nickel::script::QJSModule& module) \x7b",
     tag "for e in enums",
     slot "e.enum",
     tag "endfor",
     tag "for c in classes",
     slot "c.class",
     tag "endfor",
     "\x7d"]

def bindingHeaderSource : String := lines
    ["// Generated by nickel-refl-gen. Do not edit.",
     "#pragma once",
     "",
     "namespace nickel::script \x7b",
     "class QJSModule;",
     "\x7d",
     "",
     "namespace script_binding \x7b",
     "",
     "void RegisterScriptBinding(::nickel::script::QJSModule& module);",
     "",
     "\x7d  // namespace script_binding"]

def bindingImplSource : String := lines
    ["// Generated by nickel-refl-gen. Do not edit.",
     "#include \"script_binding.hpp\"",
     "#include \"nickel/script/binding/binding.hpp\"",
     tag "for h in headerFiles",
     "#include \"" ++ slot "h.headerFile" ++ "\"",
     tag "endfor",
     "",
     "namespace script_binding \x7b",
     "",
     "void RegisterScriptBinding(::nickel::script::QJSModule& module) \x7b",
     tag "for f in funcCalls",
     "    " ++ slot "f.funcCall" ++ "(module);",
     tag "endfor",
     "\x7d",
     "",
     "\x7d  // namespace script_binding"]

/-- The source that is used where no other is given. -/
def builtin : TemplateName → String
  | .classRefl => classReflSource
  | .enumRefl => enumReflSource
  | .fileRefl => fileReflSource
  | .reflHeader => reflHeaderSource
  | .reflImpl => reflImplSource
  | .classBinding => classBindingSource
  | .enumBinding => enumBindingSource
  | .fileBinding => fileBindingSource
  | .bindingHeader => bindingHeaderSource
  | .bindingImpl => bindingImplSource

end HeaderReflect.TemplateName
