import HeaderReflect.CommandLine.Options
import HeaderReflect.Config.Reader
import HeaderReflect.Fault
import HeaderReflect.RunError

/-!
What the program does when it is called: it reads its options and its configuration file, resolves
the configuration, and looks for a parser. No parser of headers is built in, so that is where it
ends.
-/

namespace HeaderReflect.CommandLine

def programName : String := "nickel-refl-gen"

def versionText : String := programName ++ " " ++ "0.1.0" ++ "\n"

def usageText : String :=
  "Usage: " ++ programName
    ++ " [OPTIONS] [PARSE_DIR] [CACHE_DIR] [REFL_OUTPUT_DIR] [BINDING_OUTPUT_DIR]\n"

/-- The lines of a text, each with its end. -/
def unlines (lines : List String) : String :=
  String.join (lines.map (· ++ "\n"))

def helpText : String :=
  unlines
      ["Command-line front end: generates reflection and QuickJS binding registration code for "
        ++ "annotated C++ headers",
       ""]
    ++ usageText
    ++ unlines
      ["",
       "Arguments:",
       "  [PARSE_DIR]           Directory scanned for headers",
       "  [CACHE_DIR]           Directory holding the incremental cache",
       "  [REFL_OUTPUT_DIR]     Output directory for reflection registration code",
       "  [BINDING_OUTPUT_DIR]  Output directory for script binding code",
       "",
       "Options:",
       "  -c, --config <CONFIG>              JSON configuration file; positional arguments and "
        ++ "flags override it",
       "      --include-dir <INCLUDE_DIR>    Include root for generated `#include`s (default: "
        ++ "parent of PARSE_DIR)",
       "      --template-dir <TEMPLATE_DIR>  Directory of `<name>.jinja` files overriding the "
        ++ "built-in templates",
       "      --force                        Ignore the persisted cache and re-visit every header",
       "  -v, --verbose...                   More logging (-v debug, -vv trace)",
       "  -q, --quiet                        Only log warnings and errors",
       "  -h, --help                         Print help",
       "  -V, --version                      Print version"]

/-- Why the program ends without having generated anything. -/
inductive Failure where
  | usage (error : UsageError)
  | readingConfig (path : String)
  | parsingConfig (path : String)
  | missingConfiguration (setting : Setting)
  | noParser
deriving DecidableEq, Repr

namespace Failure

def message : Failure → String
  | .usage error => error.message
  | .readingConfig path => "reading config " ++ path
  | .parsingConfig path => "parsing config " ++ path
  | .missingConfiguration setting => (RunError.missingConfiguration setting).message
  | .noParser => "built without the `libclang` feature; headers cannot be parsed"

def exitCode : Failure → Nat
  | .usage _ => 2
  | _ => 1

end Failure

/-- All that a call of the program shows. -/
structure Report where
  output : String := ""
  log : List String := []
  failure : Option Failure := none
deriving DecidableEq, Repr, Inhabited

def Report.exitCode (r : Report) : Nat :=
  match r.failure with
  | some f => f.exitCode
  | none => 0

/-- The resolved configuration: the file's settings with those of the command line over them. -/
def Options.resolve (o : Options) (read : String → Except IoFault Bytes) :
    Except Failure HeaderReflect.Config := do
  let base ←
    match o.config with
    | none => .ok {}
    | some path =>
      match read path with
      | .error _ => .error (.readingConfig path)
      | .ok text => (ConfigLayer.ofJson text).mapError fun _ => .parsingConfig path
  (base.overlay o.layer).resolve.mapError .missingConfiguration

/-- What is logged once the configuration is known. -/
def startMessage (c : HeaderReflect.Config) : String :=
  "starting " ++ programName ++ " parse_dir=" ++ c.parseDir ++ " include_dir=" ++ c.includeDir

/-- Runs the program with its arguments. `read` gives the content of a file. -/
def report (read : String → Except IoFault Bytes) (arguments : List String) : Report :=
  match Options.parse arguments with
  | .error .help => { output := helpText }
  | .error .version => { output := versionText }
  | .error (.usage error) => { failure := some (.usage error) }
  | .ok o =>
    match o.resolve read with
    | .error failure => { failure := some failure }
    | .ok c =>
      { log := if o.quiet then [] else [startMessage c], failure := some .noParser }

end HeaderReflect.CommandLine
