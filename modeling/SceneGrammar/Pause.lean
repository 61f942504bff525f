/-
Pauses between ticks.

Who ticks by the clock asks the system for a pause between two ticks. The system counts pauses, and the time at which each
is over, in nanoseconds, as signed numbers of 64 bits. It refuses a pause that it cannot count, one that lies in the past
and one whose end it cannot tell: `system`. `granted`, which refuses nothing, can take its place. `Pacing` is what a turn of
a thread meets: how long it takes, and which rule is asked for a pause of what is left of a tick's time.
-/
import SceneGrammar.Scalar

namespace SceneGrammar

/-- why a pause is refused -/
inductive PauseError where
  /-- an undefined number of seconds -/
  | undefined
  /-- too many nanoseconds, or too few, to be counted -/
  | outOfRange
  /-- a pause cannot go back -/
  | negative
  /-- the time at which the pause is over cannot be told -/
  | endless
  deriving DecidableEq, Repr

/-- what is said to a pause of some seconds: why it is refused, if it is -/
abbrev PauseRule (α : Type) := α → Option PauseError

namespace PauseRule

variable {α : Type} [Scalar α]

/-- as many nanoseconds can be counted neither forward nor, one more, back -/
def bound : Int := (Nat.pow 2 63 : Nat)

/-- nanoseconds -/
def nanoseconds (seconds : α) : α := seconds * Scalar.ofInt 1000000000

/-- the rule of the system when its clock shows some seconds -/
def system (clock : α) : PauseRule α := fun seconds =>
  if !(seconds == seconds) then some .undefined
  else if nanoseconds seconds < Scalar.ofInt (-bound) ∨ ¬ nanoseconds seconds < Scalar.ofInt bound then some .outOfRange
  else if seconds < Scalar.zero then some .negative
  else if ¬ nanoseconds clock + nanoseconds seconds < Scalar.ofInt bound then some .endless
  else none

/-- the rule of a system that takes every pause -/
def granted : PauseRule α := fun _ => none

end PauseRule

/-- what a turn of a thread meets: the seconds that it takes, and what is said to pauses -/
structure Pacing (α : Type) where
  elapsed : α
  rule : PauseRule α

namespace Pacing

variable {α : Type} [Scalar α]

/-- what is said to a pause of what a turn has left of a tick's time -/
def refusal (p : Pacing α) (tickRate : α) : Option PauseError :=
  p.rule (Scalar.greatest (tickRate - p.elapsed) Scalar.zero)

/-- a turn that takes no time, and no pause refused -/
def instant : Pacing α := { elapsed := Scalar.zero, rule := .granted }

end Pacing

end SceneGrammar
