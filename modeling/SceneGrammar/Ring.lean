/-
A bounded log: the most recent items in the order of their arrival.

`push` drops the oldest item once the capacity is reached. `latest n` is the last `n` items for a positive `n`; for
`n ≤ 0` it is all items but the first `-n`, so `latest 0` is the whole log.
-/
namespace SceneGrammar

/-- at most `capacity` items, oldest first -/
structure Ring (ε : Type) where
  capacity : Nat
  items : List ε

namespace Ring

variable {ε : Type}

/-- a log that holds nothing yet -/
def empty (capacity : Nat) : Ring ε := ⟨capacity, []⟩

/-- a log of an asked capacity that holds nothing yet, if there is such a capacity -/
def ofCapacity? (capacity : Int) : Option (Ring ε) := if capacity < 0 then none else some (empty capacity.toNat)

/-- add an item, dropping the oldest beyond the capacity -/
def push (r : Ring ε) (a : ε) : Ring ε :=
  let items := r.items ++ [a]
  { r with items := items.drop (items.length - r.capacity) }

/-- forget every item -/
def clear (r : Ring ε) : Ring ε := { r with items := [] }

/-- the number of items held -/
def size (r : Ring ε) : Nat := r.items.length

/-- the last `n` items of a list, or all but the first `-n` -/
def lastOf (n : Int) (items : List ε) : List ε :=
  if 0 < n then items.drop (items.length - n.toNat) else items.drop (-n).toNat

/-- the last `n` items held, or all but the first `-n` -/
def latest (r : Ring ε) (n : Int) : List ε := lastOf n r.items

/-- the items stamped `t` or later -/
def since (r : Ring ε) (stamp : ε → Int) (t : Int) : List ε := r.items.filter fun a => t ≤ stamp a

end Ring

end SceneGrammar
