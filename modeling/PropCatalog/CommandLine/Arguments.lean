import PropCatalog.Config.Load

/-!
# Arguments

The arguments of the program: options of the program, a command, and options of the command. Options
have long names, some have a letter too, and letters can be joined. A value follows its option as
the next argument or is attached to it. An option that does not count its occurrences is given at
most once.
-/

namespace PropCatalog.CommandLine

/-- Which sources and which document a command works on. -/
structure SourceOptions where
  input : Option Text
  target : Option Text
  config : Option Text
  filter : Option Text
  cap : Option Nat
  recursive : Bool
  deriving DecidableEq, Repr

/-- What the program is to do. -/
inductive Command where
  | generate (source : SourceOptions) (watch dryRun : Bool)
  | init (output : Text) (force : Bool)
  | check (source : SourceOptions)
  deriving DecidableEq, Repr

/-- Why no command is run. -/
inductive Stop where
  | usage
  | help
  | version
  deriving DecidableEq, Repr

/-! ## Options -/

/-- The options of the program and of its commands. -/
inductive OptionName where
  | input
  | target
  | config
  | filter
  | cap
  | recursive
  | watch
  | dryRun
  | output
  | force
  | verbose
  | help
  | version
  deriving DecidableEq, Repr

namespace OptionName

def long : OptionName → Text
  | input => "input".toList
  | target => "target".toList
  | config => "config".toList
  | filter => "filter".toList
  | cap => "max-depth".toList
  | recursive => "recursive".toList
  | watch => "watch".toList
  | dryRun => "dry-run".toList
  | output => "output".toList
  | force => "force".toList
  | verbose => "verbose".toList
  | help => "help".toList
  | version => "version".toList

def letter? : OptionName → Option Char
  | input => some 'i'
  | target => some 't'
  | config => some 'c'
  | recursive => some 'r'
  | watch => some 'w'
  | output => some 'o'
  | verbose => some 'v'
  | help => some 'h'
  | version => some 'V'
  | _ => none

def takesValue : OptionName → Bool
  | input => true
  | target => true
  | config => true
  | filter => true
  | cap => true
  | output => true
  | _ => false

/-- The number of levels that a text asks for: digits, perhaps after a plus sign, of a number of at
most 64 bits. -/
def levels? (s : Text) : Option Nat :=
  let digits := (Text.after? ['+'] s).getD s
  let n := Nat.ofDigitChars 10 digits 0
  if !digits.isEmpty && digits.all Char.isDigit && n < Word64.limit then some n else none

/-- Whether a text can be the value of the option: paths are not empty, and the cap is a number. -/
def accepts (o : OptionName) (value : Text) : Bool :=
  match o with
  | input => !value.isEmpty
  | target => !value.isEmpty
  | config => !value.isEmpty
  | output => !value.isEmpty
  | cap => (levels? value).isSome
  | _ => true

end OptionName

/-- The options given so far, each with its value, which is empty for an option without one. -/
abbrev Given := List (OptionName × Text)

namespace Given

/-- Adds an option. Help and version end the reading at once. -/
def add (given : Given) (o : OptionName) (value : Text) : Except Stop Given :=
  if o = .help then .error .help
  else if o = .version then .error .version
  else if !o.accepts value then .error .usage
  else if (given.lookup o).isSome && o ≠ .verbose then .error .usage
  else .ok ((o, value) :: given)

def has (given : Given) (o : OptionName) : Bool :=
  (given.lookup o).isSome

/-- Reads letters joined after one hyphen. The answer tells the option that waits for its value, if
there is one. -/
def addLetters (options : List OptionName) (given : Given) :
    Text → Except Stop (Given × Option OptionName)
  | [] => .ok (given, none)
  | c :: rest =>
    match options.find? fun o => o.letter? = some c with
    | none => .error .usage
    | some o =>
      if o.takesValue then
        if rest.isEmpty then .ok (given, some o)
        else (given.add o ((Text.after? ['='] rest).getD rest)).map fun given => (given, none)
      else
        match given.add o [] with
        | .error stop => .error stop
        | .ok given => addLetters options given rest

/-- Reads a long name after two hyphens, perhaps with a value after an equals sign. -/
def addLong (options : List OptionName) (given : Given) (s : Text) :
    Except Stop (Given × Option OptionName) :=
  let (name, value?) :=
    match Text.cut? ['='] s with
    | some (name, value) => (name, some value)
    | none => (s, none)
  match options.find? (fun o => o.long = name), value? with
  | none, _ => .error .usage
  | some o, some value =>
    if o.takesValue then (given.add o value).map fun given => (given, none) else .error .usage
  | some o, none =>
    if o.takesValue then .ok (given, some o) else (given.add o []).map fun given => (given, none)

/-- Reads an argument that starts with a hyphen and is no hyphen alone. -/
def addArgument (options : List OptionName) (given : Given) (arg : Text) :
    Except Stop (Given × Option OptionName) :=
  match arg with
  | '-' :: '-' :: s => addLong options given s
  | s => addLetters options given s.tail

def isOption (arg : Text) : Bool :=
  arg.head? = some '-' && arg ≠ ['-']

/-- Reads the options of a command, which has no other arguments; `waiting` is the option that waits
for its value. -/
def addAll (options : List OptionName) (given : Given) (waiting : Option OptionName) :
    List Text → Except Stop Given
  | [] => if waiting.isSome then .error .usage else .ok given
  | arg :: rest =>
    match waiting with
    | some o =>
      if isOption arg then .error .usage
      else
        match given.add o arg with
        | .error stop => .error stop
        | .ok given => addAll options given none rest
    | none =>
      if arg = ['-', '-'] then if rest.isEmpty then .ok given else .error .usage
      else if isOption arg then
        match given.addArgument options arg with
        | .error stop => .error stop
        | .ok (given, waiting) => addAll options given waiting rest
      else .error .usage

def sourceOptions (given : Given) : SourceOptions where
  input := given.lookup .input
  target := given.lookup .target
  config := given.lookup .config
  filter := given.lookup .filter
  cap := (given.lookup .cap).bind OptionName.levels?
  recursive := given.has .recursive

end Given

/-! ## Commands -/

/-- The options that choose sources and document. -/
def sourceOptionNames : List OptionName :=
  [.input, .target, .config, .filter, .cap, .recursive, .verbose, .help]

/-- Reads the options of the command of a name. -/
def readCommand (name : Text) (args : List Text) : Except Stop Command :=
  if name = "generate".toList then
    (Given.addAll (.watch :: .dryRun :: sourceOptionNames) [] none args).map fun given =>
      .generate given.sourceOptions (given.has .watch) (given.has .dryRun)
  else if name = "init".toList then
    (Given.addAll [.output, .force, .verbose, .help] [] none args).map fun given =>
      .init ((given.lookup .output).getD Config.defaultPath) (given.has .force)
  else if name = "check".toList then
    (Given.addAll sourceOptionNames [] none args).map fun given => .check given.sourceOptions
  else .error .usage

/-- The names of the commands, the one that asks for help among them. -/
def commandNames : List Text :=
  ["generate".toList, "init".toList, "check".toList, "help".toList]

def read : List Text → Except Stop Command
  | [] => .error .usage
  | arg :: rest =>
    if arg = "help".toList then
      match rest with
      | [] => .error .help
      | [name] => if name ∈ commandNames then .error .help else .error .usage
      | _ => .error .usage
    else if arg = ['-', '-'] then .error .usage
    else if Given.isOption arg then
      match Given.addArgument [.verbose, .help, .version] [] arg with
      | .error stop => .error stop
      | .ok _ => read rest
    else readCommand arg rest

/-- The level of the diagnostics for a number of `-v` options. -/
def logLevel : (verbose : Nat) → Text
  | 0 => "warn".toList
  | 1 => "info".toList
  | 2 => "debug".toList
  | _ => "trace".toList

end PropCatalog.CommandLine
