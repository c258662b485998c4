import HeaderReflect.Cache.Refresh
import HeaderReflect.Fingerprint
import HeaderReflect.RunError
import HeaderReflect.World

/-!
One run of the generator: load the cache, bring it up to date with the headers, write the generated
files, and save the cache when all of them are written. What is to be done after the refresh is
first laid out as a list of actions and then performed up to the first one that fails.
-/

namespace HeaderReflect

structure Generator where
  config : Config
  renderer : Renderer
  cursors : CursorSource
  cachePlace : CachePlace
  force : Bool := false

structure RunSummary where
  visited : Nat := 0
  reused : Nat := 0
  failed : Nat := 0
  dropped : Nat := 0
  written : Nat := 0
  unchanged : Nat := 0
deriving DecidableEq, Repr, Inhabited

inductive Action where
  | makeDirectory (path : String)
  | warn (warning : Warning)
  | write (path text : String)
  | giveUp (error : RenderError)
  | saveCache (cache : Cache)
deriving Repr

/-- How far the actions have come. -/
structure Progress where
  world : World
  written : Nat := 0
  unchanged : Nat := 0
  warnings : List Warning := []

/-- What a run leaves behind. `parsed` are the headers for which cursors were asked. -/
structure RunOutcome where
  result : Except RunError RunSummary
  world : World
  parsed : List String := []
  warnings : List Warning := []

namespace Generator

def fingerprint (g : Generator) : String :=
  HeaderReflect.fingerprint g.renderer g.config

/-- The cache to start with. A forced run does not look for one. -/
def startCache (g : Generator) (w : World) :
    Except CacheError (Cache × List Warning) × World :=
  if g.force then (.ok (Cache.empty g.fingerprint, []), w)
  else
    let (loaded, w) := g.cachePlace.load cacheKey w
    (Cache.startFrom g.fingerprint loaded, w)

/-- The headers that can be stamped, and a warning for each of the others. -/
def stampAll (fs : FileSystem) : List String → List Candidate × List Warning
  | [] => ([], [])
  | path :: rest =>
    let (candidates, warnings) := stampAll fs rest
    match fs.stat path with
    | .ok e => ({ path, stamp := Stamp.ofTime e.changed } :: candidates, warnings)
    | .error _ => (candidates, .vanished path :: warnings)

/-- The declaration tree of a header in the file system. -/
def visit (g : Generator) (fs : FileSystem) (path : String) : Except VisitError Decl :=
  match fs.readText path with
  | .ok source => visitSource g.cursors g.config.marker path source
  | .error fault => .error (.read path fault)

/-- Whether a visit asks for the cursors of a header. -/
def parses (g : Generator) (fs : FileSystem) (path : String) : Bool :=
  match fs.readText path with
  | .ok source => hasMarker g.config.marker source
  | .error _ => false

def reflFile (g : Generator) (name : String) : String := Path.join g.config.reflOutputDir name

def bindingFile (g : Generator) (name : String) : String :=
  Path.join g.config.bindingOutputDir name

/-- What is generated for one entry of the cache. -/
def planEntry (g : Generator) (key : String) (root : Decl) : FilePlan :=
  planFile g.config.memberPrefix (Path.includePath g.config.includeDir key) root

/-- The entries for which something is generated. -/
def emitted (entries : Entries) : Entries :=
  entries.filter fun e => !e.2.root.isEmpty

/-- Writes the two files of a header. -/
def writeHeader (g : Generator) (plan : FilePlan) : List Action :=
  match plan.render g.renderer with
  | .error e => [.giveUp e]
  | .ok r =>
    [.write (g.reflFile r.artifactName) r.reflection,
     .write (g.bindingFile r.artifactName) r.binding]

/-- Warns of an identifier that an earlier header has taken. -/
def warnIfTaken (owners : List (String × String)) (identifier key : String) : List Action :=
  match owners.lookup identifier with
  | some first => [.warn (.sameIdentifier identifier first key)]
  | none => []

/-- What is done for each header in turn. `owners` tells for each identifier which header was the
last to derive it. Unless something changed the files are there already. -/
def headerActions (g : Generator) (changed : Bool) :
    (owners : List (String × String)) → Entries → List Action
  | _, [] => []
  | owners, (key, entry) :: rest =>
    let plan := g.planEntry key entry.root
    warnIfTaken owners plan.identifier key
      ++ (if changed then g.writeHeader plan else [])
      ++ g.headerActions changed ((plan.identifier, key) :: owners) rest

/-- Writes the files that speak for all headers. -/
def aggregateActions (g : Generator) (identifiers : List String) : List Action :=
  match renderAggregates g.renderer identifiers with
  | .error e => [.giveUp e]
  | .ok r =>
    [.write (g.reflFile "refl_generate.hpp") r.reflHeader,
     .write (g.reflFile "refl_generate.cpp") r.reflImpl,
     .write (g.bindingFile "script_binding.hpp") r.bindingHeader,
     .write (g.bindingFile "script_binding.cpp") r.bindingImpl]

def identifiers (g : Generator) (entries : Entries) : List String :=
  (emitted entries).map fun e => (g.planEntry e.1 e.2.root).identifier

/-- All that is to be done once the cache is up to date. -/
def actions (g : Generator) (changed : Bool) (entries : Entries) : List Action :=
  [.makeDirectory g.config.reflOutputDir, .makeDirectory g.config.bindingOutputDir]
    ++ g.headerActions changed [] (emitted entries)
    ++ g.aggregateActions (g.identifiers entries)
    ++ [.saveCache { fingerprint := g.fingerprint, entries }]

/-- Performs one action. -/
def perform (g : Generator) (p : Progress) : Action → Progress × Option RunError
  | .makeDirectory path =>
    match p.world.files.ensureDirectory path with
    | .ok files => ({ p with world := { p.world with files } }, none)
    | .error fault => (p, some (.io path fault))
  | .warn warning => ({ p with warnings := p.warnings ++ [warning] }, none)
  | .write path text =>
    match p.world.files.writeIfChanged path (Text.utf8 text) with
    | .ok (true, files) =>
      ({ p with world := { p.world with files }, written := p.written + 1 }, none)
    | .ok (false, _) => ({ p with unchanged := p.unchanged + 1 }, none)
    | .error fault => (p, some (.io path fault))
  | .giveUp e => (p, some (.render e))
  | .saveCache cache =>
    let (saved, world) := g.cachePlace.save cacheKey (Blob.ofCache cache) p.world
    match saved with
    | .ok () => ({ p with world }, none)
    | .error e => ({ p with world }, some (.cache e))

/-- Performs actions up to the first that fails. -/
def performAll (g : Generator) : Progress → List Action → Progress × Option RunError
  | p, [] => (p, none)
  | p, a :: rest =>
    match g.perform p a with
    | (p, none) => g.performAll p rest
    | (p, some e) => (p, some e)

/-- Actions after others are performed where those have left off, unless one of them failed. -/
theorem performAll_append (g : Generator) (p : Progress) (first second : List Action) :
    g.performAll p (first ++ second) =
      match g.performAll p first with
      | (q, none) => g.performAll q second
      | (q, some e) => (q, some e) := by
  induction first generalizing p with
  | nil => rfl
  | cons a rest ih =>
    simp only [List.cons_append, performAll]
    split
    · exact ih _
    · rfl

/-- The part of a run behind the start with a cache. -/
def runFrom (g : Generator) (w : World) (cache : Cache) (warnings : List Warning)
    (files : List String) : RunOutcome :=
  let (candidates, vanished) := stampAll w.files files
  let (refreshed, fatal) := cache.refresh (g.visit w.files) candidates
  let parsed := refreshed.visited.filter (g.parses w.files)
  let warnings := warnings ++ vanished ++ refreshed.warnings
  match fatal with
  | some e => { result := .error (.ofVisit e), world := w, parsed, warnings }
  | none =>
    let report := refreshed.report
    let (p, failure) :=
      g.performAll { world := w, warnings } (g.actions report.changed refreshed.entries)
    let result :=
      match failure with
      | some e => .error e
      | none =>
        .ok { visited := report.visited, reused := report.reused, failed := report.failed,
              dropped := report.dropped, written := p.written, unchanged := p.unchanged }
    { result, world := p.world, parsed, warnings := p.warnings }

/-- Runs the generator over the given headers. -/
def run (g : Generator) (w : World) (files : List String) : RunOutcome :=
  match g.startCache w with
  | (.error e, w) => { result := .error (.cache e), world := w }
  | (.ok (cache, warnings), w) => g.runFrom w cache warnings files

end Generator

end HeaderReflect
