/-
Which log records are written, and how.

Loggers have dotted names; one without a threshold of its own takes the nearest one above it, at last the root's. The
set-up gives the root and the output one threshold and keeps two chatty loggers at warnings, unless everything is
wanted.
-/
namespace SceneGrammar.LogLine

/-- the severity of a record; a threshold of zero stands for none -/
inductive Level where
  | notset
  | debug
  | info
  | warning
  | error
  | critical
  deriving DecidableEq, Repr

namespace Level

/-- severities in steps of ten -/
def number : Level → Nat
  | .notset => 0
  | .debug => 10
  | .info => 20
  | .warning => 30
  | .error => 40
  | .critical => 50

/-- how a severity is written -/
def text : Level → String
  | .notset => "NOTSET"
  | .debug => "DEBUG"
  | .info => "INFO"
  | .warning => "WARNING"
  | .error => "ERROR"
  | .critical => "CRITICAL"

/-- a severity by its name in any case; a name that is none means `info` -/
def named (name : String) : Level :=
  match name.toUpper with
  | "NOTSET" => .notset
  | "DEBUG" => .debug
  | "WARN" => .warning
  | "WARNING" => .warning
  | "ERROR" => .error
  | "CRITICAL" => .critical
  | "FATAL" => .critical
  | _ => .info

end Level

/-- loggers that flood the output with one line per request or file -/
def chatty : List String := ["uvicorn.access", "watchfiles"]

/-- the thresholds after set-up -/
structure Setup where
  threshold : Level
  chattyThreshold : Level

/-- the set-up for a level by name, `info` if none is given -/
def setUp (name : Option String) : Setup :=
  let threshold := Level.named (name.getD "INFO")
  { threshold, chattyThreshold := if threshold.number ≤ Level.debug.number then .debug else .warning }

/-- a dotted name and the names above it, nearest first -/
def chain (name : String) : List String :=
  let parts := name.splitOn "."
  (List.range parts.length).map fun i => ".".intercalate (parts.take (parts.length - i))

/-- the threshold that holds for a logger -/
def Setup.effective (s : Setup) (name : String) : Level :=
  if (chain name).any (chatty.contains ·) then s.chattyThreshold else s.threshold

/-- whether a record of a logger is written; one without severity never is -/
def Setup.writes (s : Setup) (name : String) (level : Level) : Bool :=
  0 < level.number ∧ (s.effective name).number ≤ level.number ∧ s.threshold.number ≤ level.number

/-- a text filled up with blanks to `n` characters -/
def padded (n : Nat) (s : String) : String := s ++ String.ofList (List.replicate (n - s.length) ' ')

/-- the unnamed logger is the root -/
def shownName (name : String) : String := if name = "" then "root" else name

/-- a record as it is written, after the time of day -/
def render (name : String) (level : Level) (message : String) : String :=
  "[" ++ padded 5 level.text ++ "] " ++ padded 32 (shownName name) ++ " | " ++ message

/-- the lines that a record adds to the output -/
def Setup.lines (s : Setup) (name : String) (level : Level) (message : String) : List String :=
  if s.writes name level then (render name level message).splitOn "\n" else []

end SceneGrammar.LogLine
