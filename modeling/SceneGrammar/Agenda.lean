/-
The agenda: symbols waiting to expand, on a clock that only `advance` moves.

Entries lie in a heap ordered by due time and then by number. At most one entry per node is pending: the table
`pending` says which. Cancelling an entry only marks it; marked entries are dropped when they come up.
-/
import SceneGrammar.Heap
import SceneGrammar.Scalar

namespace SceneGrammar

/-- a planned expansion of the shape on a node -/
structure Appointment (α : Type) where
  due : α
  number : Nat
  node : Nat
  shape : Nat
  cancelled : Bool

/-- earlier due first; of two due at one time, the one made first -/
def Appointment.before {α : Type} [LT α] [DecidableLT α] [BEq α] (a b : Appointment α) : Bool :=
  if a.due == b.due then a.number < b.number else a.due < b.due

/-- a clock, the appointments made, and which of them are pending -/
structure Agenda (α : Type) where
  now : α
  heap : Array (Appointment α)
  /-- node and number of each pending appointment -/
  pending : List (Nat × Nat)
  nextNumber : Nat

namespace Agenda

variable {α : Type}

/-- nothing planned, at time zero -/
def empty [Scalar α] : Agenda α := ⟨Scalar.zero, #[], [], 0⟩

/-- the number of pending appointments -/
def pendingCount (a : Agenda α) : Nat := a.pending.length

/-- whether a node has a pending appointment -/
def isPending (a : Agenda α) (node : Nat) : Bool := a.pending.any (·.1 == node)

/-- mark an appointment by its number -/
def strike (number : Nat) (e : Appointment α) : Appointment α :=
  if e.number = number then { e with cancelled := true } else e

/-- drop the pending appointment of a node; whether there was one -/
def cancel (a : Agenda α) (node : Nat) : Bool × Agenda α :=
  match a.pending.lookup node with
  | none => (false, a)
  | some number =>
    (true, { a with
      heap := a.heap.map (strike number)
      pending := a.pending.filter fun p => p.1 != node })

/-- forget the pending mark of a node -/
def settle (a : Agenda α) (node : Nat) : Agenda α :=
  { a with pending := a.pending.filter fun p => p.1 != node }

/-- plan an expansion after a delay, in place of a pending one of the same node -/
def schedule [Add α] [LT α] [DecidableLT α] [BEq α] (a : Agenda α) (node shape : Nat) (delay : α) : Agenda α :=
  let a := (a.cancel node).2
  let e : Appointment α := ⟨a.now + delay, a.nextNumber, node, shape, false⟩
  { a with
    heap := Heap.push Appointment.before a.heap e
    pending := (node, a.nextNumber) :: a.pending
    nextNumber := a.nextNumber + 1 }

/-- move the clock -/
def tick [Add α] (a : Agenda α) (dt : α) : Agenda α := { a with now := a.now + dt }

/-- take the first appointment if it is due -/
def popDue [LT α] [DecidableLT α] [LE α] [DecidableLE α] [BEq α] (a : Agenda α) :
    Option (Appointment α × Agenda α) :=
  match a.heap[0]? with
  | none => none
  | some first =>
    if first.due ≤ a.now then
      (Heap.pop Appointment.before a.heap).map fun (e, heap) => (e, { a with heap })
    else none

/-- drop every appointment; the clock stays -/
def clear (a : Agenda α) : Agenda α := { a with heap := #[], pending := [] }

end Agenda

end SceneGrammar
