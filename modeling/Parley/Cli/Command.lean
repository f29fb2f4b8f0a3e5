namespace Parley.Cli

inductive Topic where
  | program
  | initConfig
  | checkConfig
  | templates
  | help
  deriving DecidableEq, Repr

inductive Command where
  | help (topic : Topic)
  | initConfig (path : String)
  | checkConfig (path : String)
  | templates (path : String)
  deriving DecidableEq, Repr

def defaultPath : String := "contract-proxy.toml"

inductive Word where
  | help
  | config (attached : Option String)
  | endOfOptions
  | value (text : String)
  | unknown
  deriving DecidableEq, Repr

def Word.ofArg (arg : String) : Word :=
  if arg = "--" then .endOfOptions
  else if arg = "--help" then .help
  else if arg = "--config" then .config none
  else
    match arg.toList with
    | '-' :: '-' :: 'c' :: 'o' :: 'n' :: 'f' :: 'i' :: 'g' :: '=' :: path =>
      .config (some (String.ofList path))
    | '-' :: 'h' :: _ => .help
    | ['-', 'c'] => .config none
    | '-' :: 'c' :: '=' :: path => .config (some (String.ofList path))
    | '-' :: 'c' :: path => .config (some (String.ofList path))
    | '-' :: _ :: _ => .unknown
    | _ => .value arg

def takePath (given : Option String) (path : String) : Option String :=
  if path.isEmpty || given.isSome then none else some path

def readConfig (topic : Topic) (make : String → Command) (given : Option String) :
    List String → Option Command
  | [] => some (make (given.getD defaultPath))
  | [arg] =>
    match Word.ofArg arg with
    | .help => some (.help topic)
    | .endOfOptions => some (make (given.getD defaultPath))
    | .config (some path) => (takePath given path).map make
    | _ => none
  | arg :: next :: rest =>
    match Word.ofArg arg with
    | .help => some (.help topic)
    | .config (some path) => do
      let path ← takePath given path
      readConfig topic make (some path) (next :: rest)
    | .config none => do
      let path ← if Word.ofArg next = .value next then takePath given next else none
      readConfig topic make (some path) rest
    | _ => none

def readPath (given : Option String) : List String → Option Command
  | [] => given.map .initConfig
  | arg :: rest =>
    match Word.ofArg arg with
    | .help => some (.help .initConfig)
    | .endOfOptions => do
      let path ← rest.foldlM (fun given path => (takePath given path).map some) given
      path.map .initConfig
    | .value path => do
      let path ← takePath given path
      readPath (some path) rest
    | _ => none

def Topic.ofArgs? : List String → Option Topic
  | [] => some .program
  | ["init-config"] => some .initConfig
  | ["check-config"] => some .checkConfig
  | ["templates"] => some .templates
  | ["help"] => some .help
  | _ => none

/-- The command that arguments spell; nothing if they are used wrongly. -/
def Command.ofArgs? : List String → Option Command
  | [] => none
  | "init-config" :: rest => readPath none rest
  | "check-config" :: rest => readConfig .checkConfig .checkConfig none rest
  | "templates" :: rest => readConfig .templates .templates none rest
  | "help" :: rest => (Topic.ofArgs? rest).map .help
  | arg :: _ => if Word.ofArg arg = .help then some (.help .program) else none

def Topic.text : Topic → List String
  | .program =>
    ["Operator tooling for the contract negotiation engine", "",
      "Usage: contract-proxy <COMMAND>", "", "Commands:",
      "  init-config   Write a default configuration file",
      "  check-config  Validate a configuration file and its templates",
      "  templates     List configured templates with their parameters and hashes",
      "  help          Print this message or the help of the given subcommand(s)", "", "Options:",
      "  -h, --help  Print help"]
  | .initConfig =>
    ["Write a default configuration file", "", "Usage: contract-proxy init-config <PATH>", "",
      "Arguments:", "  <PATH>  ", "", "Options:", "  -h, --help  Print help"]
  | .checkConfig =>
    ["Validate a configuration file and its templates", "",
      "Usage: contract-proxy check-config [OPTIONS]"] ++ configOptions
  | .templates =>
    ["List configured templates with their parameters and hashes", "",
      "Usage: contract-proxy templates [OPTIONS]"] ++ configOptions
  | .help =>
    ["Print this message or the help of the given subcommand(s)", "",
      "Usage: contract-proxy help [COMMAND]...", "", "Arguments:",
      "  [COMMAND]...  Print help for the subcommand(s)"]
where
  configOptions : List String :=
    ["", "Options:", "  -c, --config <CONFIG>  [default: contract-proxy.toml]",
      "  -h, --help             Print help"]

end Parley.Cli
