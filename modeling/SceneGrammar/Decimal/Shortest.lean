/-
The shortest decimal that reads back as a given binary value.

A positive double is `m * 2 ^ q`; the decimals that round to it fill an interval around it, whose ends belong to it iff
`m` is even. `shortest m q` tries grids of 1, 2, ..., 17 significant digits: the first grid with a point in the interval
wins, of two points the nearer, of two equally near the even one.
-/
namespace SceneGrammar.Decimal

/-- the decimal `digits * 10 ^ exponent` -/
structure Numeral where
  digits : Nat
  exponent : Int
  deriving DecidableEq, Repr

/-- the number of decimal digits of `n`, one for zero -/
def digitCount (n : Nat) : Nat := (Nat.toDigits 10 n).length

/-- the exponent `e` with `10 ^ e ≤ num / den < 10 ^ (e + 1)`, for positive arguments -/
def magnitude (num den : Nat) : Int :=
  if den ≤ num then (digitCount (num / den) : Int) - 1
  else -(digitCount ((den + num - 1) / num - 1) : Int)

/-- the fraction `num / den` times `10 ^ e` -/
def shift (num den : Nat) (e : Int) : Nat × Nat :=
  if 0 ≤ e then (num * Nat.pow 10 e.toNat, den) else (num, den * Nat.pow 10 (-e).toNat)

/-- a value and the interval that rounds to it, as fractions over one denominator -/
structure Interval where
  low : Nat
  value : Nat
  high : Nat
  den : Nat
  closed : Bool
  deriving Repr

namespace Interval

/-- the interval of the double `m * 2 ^ q` -/
def ofDouble (m : Nat) (q : Int) : Interval :=
  let below := if m = Nat.pow 2 52 ∧ -1074 < q then 1 else 2
  let e := q - 2
  let up := Nat.pow 2 e.toNat
  ⟨(4 * m - below) * up, 4 * m * up, (4 * m + 2) * up, Nat.pow 2 (-e).toNat, m % 2 == 0⟩

/-- whether `digits * 10 ^ e` lies in the interval -/
def contains (i : Interval) (digits : Nat) (e : Int) : Bool :=
  let (low, den) := shift i.low i.den (-e)
  let high := (shift i.high i.den (-e)).1
  let x := digits * den
  if i.closed then low ≤ x ∧ x ≤ high else low < x ∧ x < high

/-- the point of the grid `10 ^ e` that stands for the value, if one lies in the interval -/
def onGrid (i : Interval) (e : Int) : Option Numeral :=
  let (value, den) := shift i.value i.den (-e)
  let down := value / den
  let rest := value % den
  let up := down + 1
  match i.contains down e, i.contains up e with
  | true, false => some ⟨down, e⟩
  | false, true => some ⟨up, e⟩
  | true, true =>
    if 2 * rest < den ∨ (2 * rest = den ∧ down % 2 = 0) then some ⟨down, e⟩ else some ⟨up, e⟩
  | false, false => none

/-- the first grid with a point in the interval, from exponent `e` to finer ones -/
def search (i : Interval) : Nat → Int → Numeral
  | 0, e =>
    let (value, den) := shift i.value i.den (-e)
    ⟨value / den, e⟩
  | tries + 1, e =>
    match i.onGrid e with
    | some n => n
    | none => search i tries (e - 1)

end Interval

/-- the shortest decimal that reads back as `m * 2 ^ q`, for positive `m` -/
def shortest (m : Nat) (q : Int) : Numeral :=
  let i := Interval.ofDouble m q
  i.search 17 (magnitude i.value i.den)

end SceneGrammar.Decimal
