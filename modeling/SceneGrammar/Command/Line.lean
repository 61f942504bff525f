/-
The command line: `serve` (also meant by no words at all) and `cli`.

`Line.parse` reads the words. A word behind which there is neither command nor option is refused, and so is a value
outside its option's range.
-/
import SceneGrammar.Command.Options
import SceneGrammar.Config
import SceneGrammar.Decimal.Reading

namespace SceneGrammar.Command

/-- where a server listens and what it serves -/
structure Serve where
  host : String
  port : Int
  config : Config Float

/-- a generation without a server -/
structure Headless where
  config : Config Float
  /-- builds to request -/
  builds : Int
  /-- levels of the tree to print -/
  depth : Int

/-- what the command line asks for -/
inductive Line where
  | serve (s : Serve)
  | headless (h : Headless)

namespace Line

/-- the log levels that can be asked for -/
def logLevels : List String := ["DEBUG", "INFO", "WARNING"]

/-- an option with any text -/
def text (name : String) : OptionSpec := ⟨name, .value, fun _ => true⟩

/-- an option with an integer -/
def integer (name : String) : OptionSpec := ⟨name, .value, fun s => (Decimal.int? Text.digit? s).isSome⟩

/-- an option with a number -/
def number (name : String) : OptionSpec := ⟨name, .value, fun s => (Decimal.real? Text.digit? s).isSome⟩

/-- an option with one of a list of texts -/
def oneOf (name : String) (choices : List String) : OptionSpec := ⟨name, .value, choices.contains⟩

/-- an option without a value -/
def flag (name : String) : OptionSpec := ⟨name, .flag, fun _ => true⟩

/-- options of the server -/
def serveSpecs : List OptionSpec :=
  [text "host", integer "port", text "grammar", integer "seed", flag "heightmap", oneOf "log-level" logLevels]

/-- options of a generation without a server -/
def headlessSpecs : List OptionSpec :=
  [text "grammar", integer "seed", number "delay", integer "builds", integer "ticks", flag "heightmap",
   integer "depth", oneOf "log-level" logLevels]

/-- the integer given to an option, or its default -/
def intOf (values : Values) (name : String) (default : Int) : Int :=
  ((values.lookup name).bind (Decimal.int? Text.digit?)).getD default

/-- the configuration that both commands share -/
def configOf (values : Values) : Config Float :=
  .asked ((values.lookup "grammar").getD "city") (intOf values "seed" 12345) (values.lookup "heightmap").isSome
    ((values.lookup "log-level").getD "INFO")

/-- a server with the values given -/
def serveOf (values : Values) : Serve :=
  { host := (values.lookup "host").getD "127.0.0.1", port := intOf values "port" 8000, config := configOf values }

/-- a generation with the values given; the ticks are its budget after the builds -/
def headlessOf (values : Values) : Headless :=
  { config := (configOf values).onRequest (((values.lookup "delay").bind (Decimal.real? Text.digit?)).getD 0.0)
      (intOf values "ticks" 20)
    builds := intOf values "builds" 1
    depth := intOf values "depth" 3 }

/-- read a command and its options -/
def command (name : String) (words : List String) : Except Stop Line :=
  match name with
  | "serve" => (parse serveSpecs words).map fun values => .serve (serveOf values)
  | "cli" => (parse headlessSpecs words).map fun values => .headless (headlessOf values)
  | _ => .error .usage

/-- read the words up to the command; `surplus` tells that one of them was an unknown option -/
def parseFrom (surplus : Bool) : List String → Except Stop Line
  | [] => if surplus then .error .usage else .ok (.serve (serveOf []))
  | word :: rest =>
    match classify [] word with
    | .positional =>
      match command word rest with
      | .ok line => if surplus then .error .usage else .ok line
      | .error stop => .error stop
    | .unknown => if word = "--" then .error .usage else parseFrom true rest
    | .help => .error .help
    | _ => .error .usage

/-- read the words of a command line -/
def parse (words : List String) : Except Stop Line := parseFrom false words

end Line

end SceneGrammar.Command
