namespace SeriesStream

inductive Command
  | start
  | checkSettings
  deriving DecidableEq, Repr

namespace Command

def name : Command → String
  | start => "start"
  | checkSettings => "check-config"

def summary : Command → String
  | start => "Start the HTTP server (default)"
  | checkSettings => "Validate configuration file without starting the server"

def ofName? (name : String) : Option Command :=
  [start, checkSettings].find? fun c => c.name = name

end Command

/-- The options that take a value. -/
inductive OptionKey
  | config
  | listen
  deriving DecidableEq, Repr

namespace OptionKey

def name : OptionKey → String
  | config => "config"
  | listen => "listen"

def letter : OptionKey → Char
  | config => 'c'
  | listen => 'l'

def ofName? (name : List Char) : Option OptionKey :=
  [config, listen].find? fun o => o.name.toList = name

def ofLetter? (c : Char) : Option OptionKey := [config, listen].find? fun o => o.letter = c

end OptionKey

/-- One argument by its form. -/
inductive Argument
  /-- An option whose value is the argument behind it. -/
  | opening (key : OptionKey)
  | attached (key : OptionKey) (value : String)
  | help
  | version
  /-- Two dashes, behind which nothing is an option. -/
  | escape
  | word
  | unknown
  deriving DecidableEq, Repr

namespace Argument

/-- An option by its name, behind two dashes. -/
def ofName (s : List Char) : Argument :=
  match OptionKey.ofName? (s.takeWhile (· ≠ '=')), s.dropWhile (· ≠ '=') with
  | some key, [] => opening key
  | some key, _ :: value => attached key (String.ofList value)
  | none, [] =>
    if s = "help".toList then help else if s = "version".toList then version else unknown
  | none, _ => unknown

/-- An option by its letter, behind one dash. -/
def ofLetter (c : Char) (rest : List Char) : Argument :=
  match OptionKey.ofLetter? c with
  | some key =>
    match rest with
    | [] => opening key
    | '=' :: value => attached key (String.ofList value)
    | value => attached key (String.ofList value)
  | none => if c = 'h' then help else if c = 'V' then version else unknown

def ofString (s : String) : Argument :=
  match s.toList with
  | ['-', '-'] => escape
  | '-' :: '-' :: name => ofName name
  | '-' :: c :: rest => ofLetter c rest
  | _ => word

end Argument

/-- The values of the options, as far as they are given. -/
structure OptionValues where
  config : Option String
  listen : Option String
  deriving DecidableEq, Repr

namespace OptionValues

def none : OptionValues := ⟨.none, .none⟩

/-- Takes up a value. No option is given twice, and a path is not empty. -/
def give? (o : OptionValues) (key : OptionKey) (value : String) : Option OptionValues :=
  match key with
  | .config => if o.config.isSome ∨ value.isEmpty then .none else some { o with config := value }
  | .listen => if o.listen.isSome then .none else some { o with listen := value }

/-- The values of `inner`, and those of `outer` where it gives none. -/
def orElse (inner outer : OptionValues) : OptionValues :=
  ⟨inner.config <|> outer.config, inner.listen <|> outer.listen⟩

end OptionValues

/-- What arguments end in. -/
inductive ArgumentEnd
  | done
  | word (s : String) (rest : List String)
  | help
  | version
  | wrong
  deriving DecidableEq, Repr

/-- Reads options up to the first argument that is neither an option nor the value of one. -/
def readOptions (o : OptionValues) : List String → OptionValues × ArgumentEnd
  | [] => (o, .done)
  | s :: rest =>
    match Argument.ofString s with
    | .opening key =>
      match rest with
      | [] => (o, .wrong)
      | value :: rest =>
        if Argument.ofString value ≠ .word then (o, .wrong)
        else
          match o.give? key value with
          | some o => readOptions o rest
          | none => (o, .wrong)
    | .attached key value =>
      match o.give? key value with
      | some o => readOptions o rest
      | none => (o, .wrong)
    | .help => (o, .help)
    | .version => (o, .version)
    | .escape => (o, if rest.isEmpty then .done else .wrong)
    | .word => (o, .word s rest)
    | .unknown => (o, .wrong)

/-- What help is about. -/
inductive Topic
  | program
  | command (c : Command)
  | help
  deriving DecidableEq, Repr

/-- What a command line asks for. -/
inductive CommandLine
  | run (command : Command) (options : OptionValues)
  | help (topic : Topic)
  | version
  | wrong
  deriving DecidableEq, Repr

namespace CommandLine

def helpAbout : List String → CommandLine
  | [] => help .program
  | ["help"] => help .help
  | [name] => (Command.ofName? name).elim wrong fun c => help (.command c)
  | _ => wrong

/-- Reads the arguments of a command. Its options win over those in front of it. -/
def ofCommand (c : Command) (outer : OptionValues) (args : List String) : CommandLine :=
  let (options, final) := readOptions .none args
  match final with
  | .done => run c (options.orElse outer)
  | .help => help (.command c)
  | _ => wrong

/-- Reads all arguments. Without a command the server is started. -/
def ofArguments (args : List String) : CommandLine :=
  let (options, final) := readOptions .none args
  match final with
  | .done => run .start options
  | .help => help .program
  | .version => version
  | .wrong => wrong
  | .word "help" rest => helpAbout rest
  | .word name rest => (Command.ofName? name).elim wrong fun c => ofCommand c options rest

/-! What is printed about the program itself. -/

def programName : String := "kuba-stream"

/-- The file the program is run as. -/
def fileName : String := "kuba-stream-server"

def optionLines : List String :=
  ["  -c, --config <CONFIG>  Path to configuration file (overrides STREAM_CONFIG env var)",
   "  -l, --listen <LISTEN>  Override listen address (e.g., 0.0.0.0:8080)",
   "  -h, --help             Print help"]

def helpSummary : String := "Print this message or the help of the given subcommand(s)"

def helpLines : Topic → List String
  | .program =>
    ["Streams time-series query results window by window", "",
      s!"Usage: {fileName} [OPTIONS] [COMMAND]", "", "Commands:",
      s!"  start         {Command.start.summary}",
      s!"  check-config  {Command.checkSettings.summary}",
      s!"  help          {helpSummary}", "", "Options:"] ++
    optionLines ++ ["  -V, --version          Print version"]
  | .command c =>
    [c.summary, "", s!"Usage: {fileName} {c.name} [OPTIONS]", "", "Options:"] ++ optionLines
  | .help =>
    [helpSummary, "", s!"Usage: {fileName} help [COMMAND]...", "", "Arguments:",
      "  [COMMAND]...  Print help for the subcommand(s)"]

end CommandLine

end SeriesStream
