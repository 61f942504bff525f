/-
What drives a world from outside: requests, triggers and a loop.

A trigger builds one root. A loop holds the requests that wait for the next tick, the events of the last tick and,
if it keeps one, a log of events.
-/
import SceneGrammar.Config
import SceneGrammar.Ring
import SceneGrammar.Engine.Event

namespace SceneGrammar

/-- a wish to build the root again, after a delay and under another seed if one is given -/
structure Request (α : Type) where
  delay : α
  seed : Option Int

/-- what builds one root; the counter is of finished builds -/
structure Trigger where
  root : Nat
  source : Option Nat
  buildOnStart : Bool
  builds : Nat

/-- the state of a generation loop around one trigger -/
structure Loop (α : Type) where
  config : Config α
  trigger : Nat
  /-- requests in the order in which they were made -/
  requests : List (Request α)
  log : Option (Ring (Event α))
  /-- ticks finished -/
  tick : Nat
  /-- events of the current or last tick, oldest first -/
  recent : List (Event α)

namespace Loop

variable {α : Type}

/-- a loop that has not ticked -/
def fresh (config : Config α) (trigger : Nat) (log : Option (Ring (Event α))) : Loop α :=
  ⟨config, trigger, [], log, 0, []⟩

/-- put a request behind the others -/
def request (l : Loop α) (r : Request α) : Loop α := { l with requests := l.requests ++ [r] }

/-- take all requests out, at the start of a tick of which nothing is reported yet -/
def drained (l : Loop α) : Loop α := { l with recent := [], requests := [] }

/-- report something that happened in the current tick -/
def emit (l : Loop α) (h : Happening α) (node : Nat) : Loop α :=
  let e : Event α := ⟨l.tick, h, node⟩
  { l with recent := l.recent ++ [e], log := l.log.map (·.push e) }

end Loop

/-- the triggers made so far and the loop in use -/
structure Desk (α : Type) where
  triggers : Array Trigger
  loop : Option (Loop α)

namespace Desk

variable {α : Type}

/-- nothing set up -/
def empty : Desk α := ⟨#[], none⟩

/-- change the loop, if there is one -/
def mapLoop (d : Desk α) (f : Loop α → Loop α) : Desk α := { d with loop := d.loop.map f }

/-- change a trigger -/
def mapTrigger (d : Desk α) (i : Nat) (f : Trigger → Trigger) : Desk α :=
  { d with triggers := d.triggers.modify i f }

end Desk

end SceneGrammar
