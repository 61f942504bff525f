/-
What can go wrong, and what is said about it.

A fault is a cause. `Fault.message` gives its sentence; causes that belong to the arithmetic or to the caller's
arguments have none. A warning is something that went wrong and did not stop the work.
-/
import SceneGrammar.Pause
import SceneGrammar.Random
import SceneGrammar.Decimal.Layout
import SceneGrammar.Relief.HeightMap
import SceneGrammar.Text.Quoted

namespace SceneGrammar

/-- the causes of failure -/
inductive Fault (α : Type) where
  /-- an expansion cannot lie in the past -/
  | negativeDelay (delay : α)
  /-- the clock does not go back -/
  | negativeStep (dt : α)
  | number (e : NumberError)
  | range (e : RangeError)
  | relief (e : ReliefError)
  /-- the system takes no such pause -/
  | pause (e : PauseError)
  /-- a choice among nothing -/
  | noChoice
  /-- a shape outside any world was asked about its world -/
  | noContext (type : String)
  /-- a shape without a node was asked about its node -/
  | noNode (type : String)
  /-- something else was offered as the kind of a symbol -/
  | notAKind (shown : String)
  /-- a kind that has no rule -/
  | abstractKind (name : String)
  /-- parameters that the kind does not take -/
  | unfitParameters
  | unknownTemplate (id : String)
  | unknownGrammar (name : String) (known : List String)
  /-- a node cannot be hung under a destroyed one -/
  | deadParent (child : String) (parent : Nat) (parentName : String)
  /-- what a rule or a listener raised -/
  | raised (text : String)
  /-- a tick was asked for while the background loop has them -/
  | stepWhileRunning
  /-- no manager serves requests -/
  | noEngine
  /-- the manager has no loop -/
  | noLoop
  /-- a script names something that it does not hold -/
  | unknownName (name : String)
  /-- a list has no item at an index -/
  | noItem (index : Int)
  /-- a log cannot hold fewer than no items -/
  | negativeCapacity (capacity : Int)
  /-- rules are nested beyond the limit -/
  | tooDeep
  /-- a loop goes on beyond the limit -/
  | tooLong
  deriving Repr

/-- how a scene node is shown -/
def nodeText (id : Nat) (name : String) (alive : Bool) : String :=
  "SceneNode#" ++ toString id ++ "(" ++ Text.quoted name ++ (if alive then "" else " destroyed") ++ ")"

namespace Fault

/-- the sentence about a fault, if it has one -/
def message : Fault Float → Option String
  | .negativeDelay delay => some ("delay must be >= 0, got " ++ Decimal.plainText delay)
  | .negativeStep dt => some ("dt must be >= 0, got " ++ Decimal.plainText dt)
  | .number _ => none
  | .range (.tooWide) => none
  | .range e => some e.message
  | .relief (.tooManyCells) => none
  | .relief (.latticeRange) => none
  | .relief (.number _) => none
  | .relief e => some e.message
  | .pause _ => none
  | .noChoice => some "select_random() from an empty sequence"
  | .noContext type => some (type ++ " is not bound to a GrammarContext")
  | .noNode type => some (type ++ " is not bound to a scene node")
  | .notAKind shown => some (shown ++ " is not a Shape subclass")
  | .abstractKind name => some (name ++ " is abstract and cannot be instantiated")
  | .unfitParameters => none
  | .unknownTemplate id => some ("Unknown template '" ++ id ++ "'")
  | .unknownGrammar name known =>
    some ("Unknown grammar '" ++ name ++ "' (known: " ++ Text.quotedList known ++ ")")
  | .deadParent child parent parentName =>
    some ("Cannot parent '" ++ child ++ "' under destroyed " ++ nodeText parent parentName false)
  | .raised text => some text
  | .stepWhileRunning => some "Cannot step while the background loop is running."
  | .noEngine => some "No grammar engine is running; start the app through its lifespan."
  | .noLoop => some "EngineManager has no loop — build failed."
  | .unknownName _ => none
  | .noItem _ => none
  | .negativeCapacity _ => none
  | .tooDeep => none
  | .tooLong => none

end Fault

/-- what went wrong without stopping the work -/
inductive Warning where
  /-- an error while generated content was torn down -/
  | cleanupFailed (owner : String) (node : Nat) (name : String) (alive : Bool)
  /-- a seed was asked for and the root has no source of its own -/
  | seedIgnored (seed : Int) (root : String)
  /-- the tick budget is spent and expansions are still pending -/
  | budgetSpent (ticks : Int) (pending : Nat)
  deriving DecidableEq, Repr

/-- the sentence of a warning -/
def Warning.message : Warning → String
  | .cleanupFailed owner node name alive =>
    owner ++ ": cleanup of " ++ nodeText node name alive ++ " failed"
  | .seedIgnored seed root =>
    "Seed " ++ toString seed ++ " ignored: root '" ++ root ++ "' has no RandomSource"
  | .budgetSpent ticks pending =>
    "Tick budget of " ++ toString ticks ++ " spent with " ++ toString pending
      ++ " expansions pending; ticking until they run."

end SceneGrammar
