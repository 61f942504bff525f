/-
Command-line options.

A command is described by its options, each a flag or an option with a value. An option may be written in full, with
its value behind an equals sign, or shortened as long as no other option starts the same. A word that starts with a dash
is an option unless it is a negative number or holds a blank. `parse` reads the words in order: it stops at a request
for help and at the first word that is wrong, and refuses words that belong to no option at the end.
-/
import SceneGrammar.Text.Digit

namespace SceneGrammar.Command

/-- how an option is written: with a value or alone -/
inductive Arity where
  | flag
  | value
  deriving DecidableEq, Repr

/-- an option without its dashes, and whether its value is acceptable -/
structure OptionSpec where
  name : String
  arity : Arity
  accepts : String → Bool

/-- why no command is run -/
inductive Stop where
  /-- help was asked for and is shown -/
  | help
  /-- the words make no command -/
  | usage
  deriving DecidableEq, Repr

/-- what a word is taken for -/
inductive Word where
  | positional
  | help
  /-- one of the command's options, perhaps with a value attached -/
  | option (spec : OptionSpec) (value : Option String)
  /-- an option that the command does not have -/
  | unknown
  /-- the start of several options -/
  | ambiguous
  /-- help with a value attached -/
  | helpWithValue

/-- whether a word is a negative number: a dash, digits, perhaps a point and digits -/
def isNegativeNumber (word : List Char) : Bool :=
  match word with
  | '-' :: cs =>
    let isDigit (c : Char) : Bool := (Text.digit? c).isSome
    let rest := cs.dropWhile isDigit
    match rest with
    | [] => !cs.isEmpty
    | '.' :: places => !places.isEmpty && places.all isDigit
    | _ => false
  | _ => false

/-- a word cut at its first equals sign -/
def cutAtEquals (word : List Char) : String × Option String :=
  match word.span (· != '=') with
  | (name, _ :: value) => (String.ofList name, some (String.ofList value))
  | (name, []) => (String.ofList name, none)

/-- the options that a name with two dashes may mean, `none` standing for help -/
def candidates (specs : List OptionSpec) (name : String) : List (Option OptionSpec) :=
  let all : List (Option OptionSpec) := none :: specs.map some
  let full (o : Option OptionSpec) : String := "--" ++ (match o with | none => "help" | some s => s.name)
  match all.filter fun o => full o == name with
  | [] => all.filter fun o => name.toList.isPrefixOf (full o).toList
  | exact => exact

/-- what a word is taken for by a command -/
def classify (specs : List OptionSpec) (word : String) : Word :=
  match word.toList with
  | '-' :: '-' :: c :: rest =>
    let (name, value) := cutAtEquals ('-' :: '-' :: c :: rest)
    match candidates specs name with
    | [none] => if value.isSome then .helpWithValue else .help
    | [some spec] => .option spec value
    | [] => if word.toList.contains ' ' then .positional else .unknown
    | _ => .ambiguous
  | '-' :: 'h' :: _ => .help
  | ['-'] => .positional
  | '-' :: rest =>
    if isNegativeNumber ('-' :: rest) || rest.contains ' ' then .positional else .unknown
  | _ => .positional

/-- values given to options, the last first -/
abbrev Values := List (String × String)

/-- read the words in order; `surplus` tells that a word belonged to no option -/
def read (specs : List OptionSpec) (values : Values) (surplus : Bool) : List String → Except Stop Values
  | [] => if surplus then .error .usage else .ok values
  | "--" :: _ => .error .usage
  | word :: rest =>
    match classify specs word with
    | .positional => read specs values true rest
    | .unknown => read specs values true rest
    | .ambiguous => .error .usage
    | .help => .error .help
    | .helpWithValue => .error .usage
    | .option spec attached =>
      match spec.arity, attached with
      | .flag, some _ => .error .usage
      | .flag, none => read specs ((spec.name, "") :: values) surplus rest
      | .value, some v =>
        if spec.accepts v then read specs ((spec.name, v) :: values) surplus rest else .error .usage
      | .value, none =>
        match rest with
        | [] => .error .usage
        | "--" :: _ => .error .usage
        | v :: rest =>
          match classify specs v with
          | .positional =>
            if spec.accepts v then read specs ((spec.name, v) :: values) surplus rest else .error .usage
          | _ => .error .usage

/-- a word that could be several options is refused before anything else is looked at -/
def hasAmbiguous (specs : List OptionSpec) (words : List String) : Bool :=
  (words.takeWhile (· != "--")).any fun w =>
    match classify specs w with
    | .ambiguous => true
    | _ => false

/-- the values that the words give to the options of a command -/
def parse (specs : List OptionSpec) (words : List String) : Except Stop Values :=
  if hasAmbiguous specs words then .error .usage else read specs [] false words

end SceneGrammar.Command
