/-
What a generation loop reports.

An event is something that happened to one symbol during a tick. `Event.posting` is its public form: a category, a
sentence and the nodes concerned.
-/
import SceneGrammar.Decimal.Layout

namespace SceneGrammar

/-- the public form of an event -/
structure Posting where
  tick : Int
  category : String
  message : String
  nodes : List Int
  deriving DecidableEq, Repr

/-- what can happen to a symbol -/
inductive Happening (α : Type) where
  /-- the build that starts a loop -/
  | startUp (name : String)
  /-- a requested build -/
  | regenerated (name : String) (seed : Option Int) (delay : α)
  /-- an expansion whose delay has passed -/
  | expanded (name : String) (count : Nat)

/-- something that happened during a tick -/
structure Event (α : Type) where
  tick : Nat
  happening : Happening α
  node : Nat

namespace Event

/-- an optional seed as text -/
def seedText : Option Int → String
  | none => "None"
  | some seed => toString seed

/-- the sentence about an event -/
def message (e : Event Float) : String :=
  match e.happening with
  | .startUp name => "Start-up build of '" ++ name ++ "'"
  | .regenerated name seed delay =>
    "Regenerate '" ++ name ++ "' (seed=" ++ seedText seed ++ ", delay=" ++ Decimal.generalText delay ++ "s)"
  | .expanded name count => "Delayed expansion of '" ++ name ++ "': " ++ toString count ++ " objects"

/-- builds and delayed expansions are posted apart -/
def category {α : Type} (e : Event α) : String :=
  match e.happening with
  | .expanded .. => "expand"
  | _ => "build"

/-- the public form -/
def posting (e : Event Float) : Posting :=
  { tick := e.tick, category := e.category, message := e.message, nodes := [(e.node : Int)] }

end Event

end SceneGrammar
