/-
The requests that a manager answers over HTTP.

`respond` finds the route of a path and method, reads and checks the parameters, and acts. A path without a route is
not found, a route without the method is not allowed, a parameter that cannot be read or lies outside its range is
refused. A fault of the manager is the answer of last resort.
-/
import SceneGrammar.Decimal.Reading
import SceneGrammar.Service.Manager

namespace SceneGrammar.Http

/-- a request: method, path, and query parameters as text -/
structure Request where
  method : String
  path : String
  query : List (String × String)

/-- what can be done to a running manager -/
inductive Action where
  | start
  | stop
  | step
  | reset
  deriving DecidableEq, Repr

/-- an action by its name -/
def Action.named? : String → Option Action
  | "start" => some .start
  | "stop" => some .stop
  | "step" => some .step
  | "reset" => some .reset
  | _ => none

/-- the endpoints -/
inductive Route where
  | state
  | events
  | regenerate
  | control (name : String)
  | speed
  | config
  deriving DecidableEq, Repr

namespace Route

/-- the method of an endpoint -/
def method : Route → String
  | .state => "GET"
  | .events => "GET"
  | .config => "GET"
  | _ => "POST"

/-- the endpoint of a path, given by its parts -/
def ofParts? : List String → Option Route
  | ["", "api", "v1", "state"] => some .state
  | ["", "api", "v1", "events"] => some .events
  | ["", "api", "v1", "regenerate"] => some .regenerate
  | ["", "api", "v1", "control", name] => if name = "" then none else some (.control name)
  | ["", "api", "v1", "speed"] => some .speed
  | ["", "api", "v1", "config"] => some .config
  | _ => none

/-- a path without the slashes at its end -/
def withoutEnd (path : String) : String :=
  String.ofList (path.toList.reverse.dropWhile (· == '/')).reverse

/-- the endpoint of a path; slashes at the end do not matter -/
def ofPath? (path : String) : Option Route :=
  ofParts? (path.splitOn "/") <|> ofParts? ((withoutEnd path).splitOn "/")

end Route

/-- the answer to a command -/
inductive Outcome where
  | ok
  | noop
  | error
  deriving DecidableEq, Repr

/-- how an outcome is written -/
def Outcome.text : Outcome → String
  | .ok => "ok"
  | .noop => "noop"
  | .error => "error"

/-- what is answered -/
inductive Response where
  | state (snapshot : TreeSnapshot Float)
  | events (events : List (Event Float))
  | control (outcome : Outcome) (message : String) (tick : Int)
  | config (config : Config Float) (tickRate : Float)
  | unavailable (detail : String)
  | invalid
  | notFound
  | wrongMethod

/-- a parameter: the text given or the default, read and checked -/
def parameter {β : Type} (r : Request) (name : String) (read? : String → Option β) (valid : β → Bool)
    (default : β) : Option β :=
  match r.query.lookup name with
  | none => some default
  | some text => (read? text).filter valid

/-- the number of seconds that a delay may have -/
def delayValid (x : Float) : Bool := !(60.0 < x) && !(x < 0.0)

/-- the number of ticks per second that can be asked for -/
def speedValid (x : Float) : Bool := !(100.0 < x) && !(x ≤ 0.5)

/-- what the manager says about an action -/
def control (g : Grammar Float (City.Kind Float) Unit) (p : Pacing Float) (action : Action) :
    Manager.Act Float Response := fun m =>
  let tick := m.publishedTick
  match action with
  | .start =>
    if m.running then .ok (.control .noop "Already running." tick) m
    else .ok (.control .ok "Generation loop started." tick) (m.start g p)
  | .stop =>
    if m.running then .ok (.control .ok "Generation loop stopped." tick) m.stop
    else .ok (.control .noop "Not running." tick) m
  | .step =>
    if m.running then .ok (.control .error "Stop the loop before stepping." tick) m
    else
      match Manager.step g none m with
      | .ok _ m => .ok (.control .ok "Single tick executed." m.publishedTick) m
      | .error fault m => .error fault m
  | .reset =>
    match Manager.reset g m with
    | .ok _ m => .ok (.control .ok "Grammar reset." m.publishedTick) m
    | .error fault m => .error fault m

/-- the events that a query asks for -/
def selectEvents (log : Ring (Event Float)) (since : Option Int) (limit : Int) : List (Event Float) :=
  match since with
  | none => log.latest limit
  | some t => Ring.lastOf limit (log.since (fun e => (e.tick : Int)) t)

/-- serve a request to an endpoint with the right method -/
def serve (g : Grammar Float (City.Kind Float) Unit) (p : Pacing Float) (r : Request) :
    Route → Manager.Act Float Response
  | .state => fun m =>
    match m.snapshot with
    | some s => .ok (.state s) m
    | none => .ok (.unavailable "No snapshot available yet.") m
  | .events => fun m =>
    let since := parameter r "since_tick" (fun s => (Decimal.wholeReal? Text.plainDigit? s).map some) (·.any (0 ≤ ·)) none
    let limit := parameter r "limit" (Decimal.wholeReal? Text.plainDigit?) (fun n => 1 ≤ n ∧ n ≤ 1000) 50
    match since, limit with
    | some since, some limit => .ok (.events (selectEvents m.events since limit)) m
    | _, _ => .ok .invalid m
  | .regenerate => fun m =>
    let seed := parameter r "seed" (fun s => (Decimal.wholeReal? Text.plainDigit? s).map some) (fun _ => true) none
    let delay := parameter r "delay" (Decimal.real? Text.plainDigit?) delayValid 0.0
    match seed, delay with
    | some seed, some delay =>
      match Manager.regenerate ⟨delay, seed⟩ m with
      | .ok _ m =>
        let message := "Regeneration queued (seed=" ++ Event.seedText seed ++ ", delay="
          ++ Decimal.generalText delay ++ "s)."
        .ok (.control .ok message m.publishedTick) m
      | .error fault m => .error fault m
    | _, _ => .ok .invalid m
  | .control name => fun m =>
    match Action.named? name with
    | some action => control g p action m
    | none => .ok .invalid m
  | .speed => fun m =>
    match parameter r "tps" (Decimal.real? Text.plainDigit?) speedValid 20.0 with
    | some tps =>
      let m := m.setTickRate (1.0 / tps)
      .ok (.control .ok ("Speed set to " ++ Decimal.fixedText 1 tps ++ " tps.") m.publishedTick) m
    | none => .ok .invalid m
  | .config => fun m => .ok (.config m.config m.tickRate) m

/-- the answer to a request, `p` being what a turn of the manager's thread meets; without a manager every
endpoint fails -/
def respond (g : Grammar Float (City.Kind Float) Unit) (p : Pacing Float) (r : Request) :
    EStateM (Fault Float) (Option (Manager Float)) Response := fun m? =>
  match Route.ofPath? r.path, m? with
  | none, m? => .ok .notFound m?
  | some route, m? =>
    if route.method ≠ r.method then .ok .wrongMethod m?
    else
      match m? with
      | none => .error .noEngine none
      | some m =>
        match serve g p r route m with
        | .ok response m => .ok response (some m)
        | .error fault m => .error fault (some m)

end SceneGrammar.Http
