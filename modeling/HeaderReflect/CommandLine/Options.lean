import HeaderReflect.Config.Basic

/-!
The arguments of the command line: up to four directories, options with a value and flags, in any
order. Short flags can be written together, a value can follow its option or be attached to it,
and after `--` everything is a directory. Arguments are taken from left to right, and the first
that cannot be taken decides; asking for help or the version ends the reading at once.
-/

namespace HeaderReflect.CommandLine

/-- An option that takes a value. -/
inductive ValueOption where
  | config
  | includeDir
  | templateDir
deriving DecidableEq, Repr

inductive Flag where
  | force
  | verbose
  | quiet
  | help
  | version
deriving DecidableEq, Repr

inductive Switch where
  | option (option : ValueOption)
  | flag (flag : Flag)
deriving DecidableEq, Repr

def ValueOption.name : ValueOption → String
  | .config => "config"
  | .includeDir => "include-dir"
  | .templateDir => "template-dir"

def Flag.name : Flag → String
  | .force => "force"
  | .verbose => "verbose"
  | .quiet => "quiet"
  | .help => "help"
  | .version => "version"

namespace Switch

def name : Switch → String
  | .option o => o.name
  | .flag f => f.name

def all : List Switch :=
  [.option .config, .option .includeDir, .option .templateDir, .flag .force, .flag .verbose,
   .flag .quiet, .flag .help, .flag .version]

def ofName? (name : String) : Option Switch :=
  all.find? (·.name = name)

def ofLetter? : Char → Option Switch
  | 'c' => some (.option .config)
  | 'v' => some (.flag .verbose)
  | 'q' => some (.flag .quiet)
  | 'h' => some (.flag .help)
  | 'V' => some (.flag .version)
  | _ => none

end Switch

inductive UsageError where
  | unknownArgument (argument : String)
  | missingValue (argument : String)
  | unneededValue (argument : String)
  | repeated (argument : String)
  | conflict (one other : String)
deriving DecidableEq, Repr

def UsageError.message : UsageError → String
  | .unknownArgument argument => "unexpected argument '" ++ argument ++ "' found"
  | .missingValue argument => "a value is required for '" ++ argument ++ "' but none was supplied"
  | .unneededValue argument => "no value is expected for '" ++ argument ++ "'"
  | .repeated argument => "the argument '" ++ argument ++ "' cannot be used multiple times"
  | .conflict one other => "the argument '" ++ one ++ "' cannot be used with '" ++ other ++ "'"

/-- Why there are no options to go on with. -/
inductive Stop where
  | usage (error : UsageError)
  | help
  | version
deriving DecidableEq, Repr

structure Options where
  directories : List String := []
  config : Option String := none
  includeDir : Option String := none
  templateDir : Option String := none
  force : Bool := false
  verbose : Nat := 0
  quiet : Bool := false
deriving DecidableEq, Repr, Inhabited

namespace Options

/-- The names of the directories in order. -/
def directoryNames : List String :=
  ["PARSE_DIR", "CACHE_DIR", "REFL_OUTPUT_DIR", "BINDING_OUTPUT_DIR"]

/-- Takes one more directory, of which none is left nameless or empty. -/
def addDirectory (o : Options) (path : String) : Except Stop Options :=
  match directoryNames[o.directories.length]? with
  | none => .error (.usage (.unknownArgument path))
  | some name =>
    if path = "" then .error (.usage (.missingValue ("[" ++ name ++ "]")))
    else .ok { o with directories := o.directories ++ [path] }

def value? (o : Options) : ValueOption → Option String
  | .config => o.config
  | .includeDir => o.includeDir
  | .templateDir => o.templateDir

/-- Gives an option its value, once and not an empty one. -/
def setValue (o : Options) (option : ValueOption) (value : String) : Except Stop Options :=
  if value = "" then .error (.usage (.missingValue ("--" ++ option.name)))
  else if (o.value? option).isSome then .error (.usage (.repeated ("--" ++ option.name)))
  else
    match option with
    | .config => .ok { o with config := some value }
    | .includeDir => .ok { o with includeDir := some value }
    | .templateDir => .ok { o with templateDir := some value }

/-- Raises a flag. Only `verbose` can be raised more than once. -/
def raise (o : Options) : Flag → Except Stop Options
  | .help => .error .help
  | .version => .error .version
  | .verbose => .ok { o with verbose := o.verbose + 1 }
  | .force =>
    if o.force then .error (.usage (.repeated "--force")) else .ok { o with force := true }
  | .quiet =>
    if o.quiet then .error (.usage (.repeated "--quiet")) else .ok { o with quiet := true }

/-- The options after an argument, and the option that still waits for its value. -/
abbrev Taken := Options × Option ValueOption

/-- Takes `--name` or `--name=value`. -/
def takeLong (o : Options) (text : List Char) : Except Stop Taken :=
  let name := String.ofList (text.takeWhile (· != '='))
  match Switch.ofName? name, text.dropWhile (· != '=') with
  | none, _ => .error (.usage (.unknownArgument ("--" ++ name)))
  | some (.option option), [] => .ok (o, some option)
  | some (.option option), _ :: value => (o.setValue option (String.ofList value)).map (·, none)
  | some (.flag flag), [] => (o.raise flag).map (·, none)
  | some (.flag flag), _ :: _ => .error (.usage (.unneededValue ("--" ++ flag.name)))

/-- Takes the letters behind a single dash. What follows an option in the same argument is its
value, with or without a `=` between them. -/
def takeLetters (o : Options) : List Char → Except Stop Taken
  | [] => .ok (o, none)
  | letter :: rest =>
    match Switch.ofLetter? letter, rest with
    | none, _ => .error (.usage (.unknownArgument (String.ofList ['-', letter])))
    | some (.flag flag), rest => do takeLetters (← o.raise flag) rest
    | some (.option option), [] => .ok (o, some option)
    | some (.option option), '=' :: value =>
      (o.setValue option (String.ofList value)).map (·, none)
    | some (.option option), value => (o.setValue option (String.ofList value)).map (·, none)

/-- Takes an argument that is no value of an option. A dash alone is a directory. -/
def take (o : Options) (argument : String) : Except Stop Taken :=
  match argument.toList with
  | '-' :: '-' :: text => o.takeLong text
  | '-' :: letter :: letters => o.takeLetters (letter :: letters)
  | _ => (o.addDirectory argument).map (·, none)

/-- Whether an argument looks like a flag and thus cannot be the value of an option. -/
def isFlagLike (argument : String) : Bool :=
  argument.toList.head? == some '-' && argument != "-"

/-- Takes arguments that can only be directories. -/
def takeDirectories (o : Options) : List String → Except Stop Options
  | [] => .ok o
  | path :: rest => do takeDirectories (← o.addDirectory path) rest

/-- Takes arguments one after another. `waiting` is the option that the next one belongs to. -/
def takeAll (o : Options) (waiting : Option ValueOption) : List String → Except Stop Options
  | [] =>
    match waiting with
    | some option => .error (.usage (.missingValue ("--" ++ option.name)))
    | none => .ok o
  | argument :: rest =>
    match waiting with
    | some option =>
      if isFlagLike argument then .error (.usage (.missingValue ("--" ++ option.name)))
      else do takeAll (← o.setValue option argument) none rest
    | none =>
      if argument = "--" then o.takeDirectories rest
      else do
        let (o, waiting) ← o.take argument
        takeAll o waiting rest

/-- The options that the arguments state. -/
def parse (arguments : List String) : Except Stop Options := do
  let o ← takeAll {} none arguments
  if o.quiet && 0 < o.verbose then .error (.usage (.conflict "--verbose" "--quiet"))
  else return o

/-- The settings given on the command line. -/
def layer (o : Options) : ConfigLayer where
  parseDir := o.directories[0]?
  cacheDir := o.directories[1]?
  reflOutputDir := o.directories[2]?
  bindingOutputDir := o.directories[3]?
  includeDir := o.includeDir
  templateDir := o.templateDir

end Options

end HeaderReflect.CommandLine
