import HeaderReflect.Discovery
import HeaderReflect.Generator

/-!
From settings to a generator that is ready to run: the settings are resolved, the templates are
read, and the headers are looked for unless they are named.
-/

namespace HeaderReflect

inductive RendererKind where
  | templates
  | json
deriving DecidableEq, Repr, Inhabited

/-- The renderer of a kind. `read` is asked for the files of the template directory, if there is
one. -/
def RendererKind.build (templateDir : Option String) (read : String → Except IoFault String) :
    RendererKind → Except RenderError Renderer
  | .json => .ok jsonRenderer
  | .templates =>
    match templateDir with
    | none => builtinTemplates.map (·.renderer)
    | some dir => (overriddenTemplates dir read).map (·.renderer)

/-- Why a run cannot start. -/
inductive SetupError where
  | missingConfiguration (setting : Setting)
  | templates (error : RenderError)
  | discovery (error : DiscoveryError)
deriving DecidableEq, Repr

/-- What is asked of a run. Without `files` the headers are discovered. -/
structure Job where
  settings : ConfigLayer
  renderer : RendererKind := .templates
  cursors : CursorSource
  cacheInMemory : Bool := false
  force : Bool := false
  files : Option (List String) := none

/-- The headers of a job. -/
def Job.headers (job : Job) (fs : FileSystem) (config : Config) :
    Except DiscoveryError (List String) :=
  match job.files with
  | some files => .ok files
  | none => discoverHeaders fs config.parseDir config.headerExtensions

/-- The generator of a job and the headers it runs over. -/
def Job.setUp (job : Job) (fs : FileSystem) : Except SetupError (Generator × List String) := do
  let config ← job.settings.resolve.mapError .missingConfiguration
  let renderer ← (job.renderer.build config.templateDir fs.readText).mapError .templates
  let files ← (job.headers fs config).mapError .discovery
  let cachePlace := if job.cacheInMemory then .inMemory else .inDirectory config.cacheDir
  return ({ config, renderer, cursors := job.cursors, cachePlace, force := job.force }, files)

end HeaderReflect
