namespace FedTrack

inductive OptionName
  | config
  | logLevel
  deriving DecidableEq, Repr

structure Options where
  config : Option String
  logLevel : Option String
  deriving DecidableEq, Repr

inductive CommandLine
  | start (options : Options)
  | help (detailed : Bool)
  | version
  deriving DecidableEq, Repr

namespace Options

def none : Options := ⟨Option.none, Option.none⟩

/-- Takes over a value. An option may be given once, and a path has a name. -/
def give? (o : Options) (name : OptionName) (value : String) : Option Options :=
  match name with
  | .config => if o.config.isSome || value = "" then Option.none else some { o with config := some value }
  | .logLevel => if o.logLevel.isSome then Option.none else some { o with logLevel := some value }

end Options

inductive Argument
  | asks (c : CommandLine)
  | gives (name : OptionName) (value : String)
  /-- The value is the next argument. -/
  | awaits (name : OptionName)
  /-- No option follows. -/
  | ends
  | unknown
  deriving DecidableEq, Repr

namespace Argument

def ofLetter (letter : Char) (rest : List Char) : Argument :=
  let valued (name : OptionName) : Argument :=
    match rest with
    | [] => .awaits name
    | '=' :: value => .gives name (String.ofList value)
    | value => .gives name (String.ofList value)
  match letter with
  | 'c' => valued .config
  | 'l' => valued .logLevel
  | 'h' => .asks (.help false)
  | 'V' => .asks .version
  | _ => .unknown

def ofWord (word : String) (value : Option String) : Argument :=
  let valued (name : OptionName) : Argument :=
    match value with
    | none => .awaits name
    | some v => .gives name v
  match word, value with
  | "config", _ => valued .config
  | "log-level", _ => valued .logLevel
  | "help", none => .asks (.help true)
  | "version", none => .asks .version
  | _, _ => .unknown

def ofText (a : String) : Argument :=
  match a.toList with
  | ['-', '-'] => .ends
  | '-' :: '-' :: rest =>
    let word := String.ofList (rest.takeWhile (· ≠ '='))
    match rest.dropWhile (· ≠ '=') with
    | [] => ofWord word none
    | _ :: value => ofWord word (some (String.ofList value))
  | '-' :: letter :: rest => ofLetter letter rest
  | _ => .unknown

/-- An argument that may be the value of the option before it. -/
def isValue (a : String) : Bool := a = "-" || a.toList.head? != some '-'

end Argument

namespace CommandLine

/-- Reads arguments from left to right; the first fault or question decides. -/
def parseFrom (o : Options) : List String → Option CommandLine
  | [] => some (.start o)
  | a :: rest =>
    match Argument.ofText a with
    | .asks c => some c
    | .gives name value =>
      match o.give? name value with
      | some o => parseFrom o rest
      | none => none
    | .awaits name =>
      match rest with
      | [] => none
      | value :: rest =>
        if Argument.isValue value then
          match o.give? name value with
          | some o => parseFrom o rest
          | none => none
        else none
    | .ends => if rest.isEmpty then some (.start o) else none
    | .unknown => none

/-- Reads a command line; `none` if it cannot be understood. -/
def parse (arguments : List String) : Option CommandLine := parseFrom .none arguments

def versionText : String := "fed-controller 0.1.0\n"

def helpHead : List String :=
  ["Federation version tracking and status controller", "", "Usage: fed-controller [OPTIONS]", "",
    "Options:"]

def shortHelp : List String :=
  ["  -c, --config <PATH>      Path to \"config.yaml\" file for further configuration",
    "  -l, --log-level <LEVEL>  Set log verbosity",
    "  -h, --help               Print help (see more with '--help')",
    "  -V, --version            Print version"]

/-- Each option with its lines of explanation. -/
def detailedOptions : List (String × List String) :=
  [("-c, --config <PATH>", ["Path to \"config.yaml\" file for further configuration"]),
    ("-l, --log-level <LEVEL>", ["Set log verbosity.", "",
      "Possible log levels are: ERROR, WARN, INFO, DEBUG, TRACE.", "",
      "If you want to adjust the scope for deeper inspection use a filter value, for example " ++
        "\"=TRACE\" for logging _everything_ or \"fedcontroller=DEBUG\" etc."]),
    ("-h, --help", ["Print help (see a summary with '-h')"]),
    ("-V, --version", ["Print version"])]

def helpText (detailed : Bool) : String :=
  let options :=
    if detailed then
      [""].intercalate (detailedOptions.map fun (option, lines) =>
        ("  " ++ option) :: lines.map ("          " ++ ·))
    else shortHelp
  String.join ((helpHead ++ options).map (· ++ "\n"))

end CommandLine

end FedTrack
