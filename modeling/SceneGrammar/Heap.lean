/-
A binary heap in an array: every item but the first has its parent at half its position.

`push` adds an item at the end and lets it rise past greater parents; `pop` takes the first item, puts the last in its
place, lets that sink along the smaller children down to a leaf, and then rise again to where it belongs. The order is
a parameter and need not be total: the positions of items follow from the comparisons made, in this order.
-/
namespace SceneGrammar.Heap

variable {ε : Type} (before : ε → ε → Bool)

/-- the position above a position other than zero -/
def parent (i : Nat) : Nat := (i - 1) / 2

/-- let the item at `i` rise while it is before its parent, for at most the given number of moves -/
def rise : Nat → Array ε → Nat → Array ε
  | 0, h, _ => h
  | moves + 1, h, i =>
    if i = 0 then h
    else
      match h[i]?, h[parent i]? with
      | some a, some p => if before a p then rise moves (h.swapIfInBounds i (parent i)) (parent i) else h
      | _, _ => h

/-- the child of `i` that sinking goes along: the right one unless the left one is before it -/
def smallerChild (h : Array ε) (i : Nat) : Option Nat :=
  match h[2 * i + 1]?, h[2 * i + 2]? with
  | none, _ => none
  | some _, none => some (2 * i + 1)
  | some l, some r => if before l r then some (2 * i + 1) else some (2 * i + 2)

/-- let the item at `i` sink to a leaf, for at most the given number of moves; also where it ends -/
def sink : Nat → Array ε → Nat → Array ε × Nat
  | 0, h, i => (h, i)
  | moves + 1, h, i =>
    match smallerChild before h i with
    | none => (h, i)
    | some c => sink moves (h.swapIfInBounds i c) c

/-- add an item -/
def push (h : Array ε) (a : ε) : Array ε := rise before (h.size + 1) (h.push a) h.size

/-- take out the first item -/
def pop (h : Array ε) : Option (ε × Array ε) :=
  match h[0]?, h.back? with
  | some first, some last =>
    let rest := h.pop
    if rest.isEmpty then some (first, rest)
    else
      let (rest, i) := sink before rest.size (rest.setIfInBounds 0 last) 0
      some (first, rise before rest.size rest i)
  | _, _ => none

end SceneGrammar.Heap
