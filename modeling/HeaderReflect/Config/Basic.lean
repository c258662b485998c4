import HeaderReflect.Path.Components

/-!
The configuration of a run. Settings come in layers, of which the upper ones win, and the layers
together are resolved to what a run uses.
-/

namespace HeaderReflect

inductive Setting where
  | parseDir
  | cacheDir
  | reflOutputDir
  | bindingOutputDir
  | includeDir
  | marker
  | headerExtensions
  | clangArgs
  | memberPrefix
  | templateDir
deriving DecidableEq, Repr, Inhabited

namespace Setting

/-- All settings in the order of a configuration written as a list. -/
def all : List Setting :=
  [.parseDir, .cacheDir, .reflOutputDir, .bindingOutputDir, .includeDir, .marker,
   .headerExtensions, .clangArgs, .memberPrefix, .templateDir]

def name : Setting → String
  | .parseDir => "parse_dir"
  | .cacheDir => "cache_dir"
  | .reflOutputDir => "refl_output_dir"
  | .bindingOutputDir => "binding_output_dir"
  | .includeDir => "include_dir"
  | .marker => "marker"
  | .headerExtensions => "header_extensions"
  | .clangArgs => "clang_args"
  | .memberPrefix => "member_prefix"
  | .templateDir => "template_dir"

def ofName? (name : String) : Option Setting :=
  all.find? (·.name = name)

end Setting

/-- One layer; what it leaves open is decided below it. -/
structure ConfigLayer where
  parseDir : Option String := none
  cacheDir : Option String := none
  reflOutputDir : Option String := none
  bindingOutputDir : Option String := none
  includeDir : Option String := none
  marker : Option String := none
  headerExtensions : Option (List String) := none
  clangArgs : Option (List String) := none
  memberPrefix : Option String := none
  templateDir : Option String := none
deriving DecidableEq, Repr, Inhabited

/-- `top` laid over `base`. -/
def ConfigLayer.overlay (base top : ConfigLayer) : ConfigLayer where
  parseDir := top.parseDir <|> base.parseDir
  cacheDir := top.cacheDir <|> base.cacheDir
  reflOutputDir := top.reflOutputDir <|> base.reflOutputDir
  bindingOutputDir := top.bindingOutputDir <|> base.bindingOutputDir
  includeDir := top.includeDir <|> base.includeDir
  marker := top.marker <|> base.marker
  headerExtensions := top.headerExtensions <|> base.headerExtensions
  clangArgs := top.clangArgs <|> base.clangArgs
  memberPrefix := top.memberPrefix <|> base.memberPrefix
  templateDir := top.templateDir <|> base.templateDir

structure Config where
  parseDir : String
  cacheDir : String
  reflOutputDir : String
  bindingOutputDir : String
  includeDir : String
  marker : String
  headerExtensions : List String
  clangArgs : List String
  memberPrefix : String
  templateDir : Option String
deriving DecidableEq, Repr, Inhabited

namespace Config

def defaultMarker : String := "NICKEL_REFL_ATTR"

def defaultHeaderExtensions : List String := ["h", "hpp", "hxx"]

def defaultClangArgs : List String := ["-std=c++20", "-D_NICKEL_REFLECTION_"]

def defaultMemberPrefix : String := "m_"

/-- The directory above the parsed one, or the working directory. -/
def defaultIncludeDir (parseDir : String) : String :=
  match Path.parent? parseDir with
  | some "" => "."
  | some above => above
  | none => "."

/-- The arguments of the parser: the configured ones and the include directory. -/
def parserArgs (c : Config) : List String :=
  c.clangArgs ++ ["-I" ++ c.includeDir]

end Config

/-- Fills in the defaults. The four directories have none; the first that is missing is the
error. -/
def ConfigLayer.resolve (l : ConfigLayer) : Except Setting Config := do
  let parseDir ← require .parseDir l.parseDir
  let cacheDir ← require .cacheDir l.cacheDir
  let reflOutputDir ← require .reflOutputDir l.reflOutputDir
  let bindingOutputDir ← require .bindingOutputDir l.bindingOutputDir
  return {
    parseDir, cacheDir, reflOutputDir, bindingOutputDir,
    includeDir := l.includeDir.getD (Config.defaultIncludeDir parseDir)
    marker := l.marker.getD Config.defaultMarker
    headerExtensions := l.headerExtensions.getD Config.defaultHeaderExtensions
    clangArgs := l.clangArgs.getD Config.defaultClangArgs
    memberPrefix := l.memberPrefix.getD Config.defaultMemberPrefix
    templateDir := l.templateDir }
where
  require (setting : Setting) : Option String → Except Setting String
    | some value => .ok value
    | none => .error setting

end HeaderReflect
