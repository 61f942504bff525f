/-
The numbers that positions, times and heights are made of.

Everything geometric or timed is written over a type `α` with `Scalar α`: the program runs it over doubles
(`Binary64`), and the same definitions can be read over an exact field. `NumberError` lists what can go wrong when a
number leaves the arithmetic: reading off an integer, taking an angle, dividing.

`least` and `greatest` keep their first argument unless the second is strictly beyond it, so a comparison that fails
(as any with an undefined double does) keeps the first.
-/
namespace SceneGrammar

/-- why a number has no answer -/
inductive NumberError where
  /-- an undefined value has no integer part -/
  | undefinedInteger
  /-- an infinite value has no integer part -/
  | infiniteInteger
  /-- an integer beyond the range of the scalars -/
  | unrepresentable
  /-- an infinite angle has no cosine -/
  | infiniteAngle
  /-- the divisor is zero -/
  | divisionByZero
  deriving DecidableEq, Repr

/-- arithmetic, order and the few functions that a grammar's geometry needs -/
class Scalar (α : Type) extends Add α, Sub α, Mul α, Div α, Neg α, LT α, LE α, BEq α, OfScientific α where
  /-- the scalar nearest to an integer -/
  ofInt : Int → α
  /-- whether an integer lies in the range of the scalars -/
  fits (α) : Int → Bool
  /-- the order is decidable -/
  ltDecidable : DecidableLT α
  /-- the weak order is decidable -/
  leDecidable : DecidableLE α
  /-- the greatest integer at or below a scalar -/
  floor : α → Except NumberError Int
  /-- the integer next to a scalar toward zero -/
  truncate : α → Except NumberError Int
  /-- the third power -/
  cube : α → α
  /-- cosine and sine of half an angle given in degrees -/
  halfAngle : α → Except NumberError (α × α)

instance Scalar.instDecidableLT {α : Type} [Scalar α] : DecidableLT α := Scalar.ltDecidable

instance Scalar.instDecidableLE {α : Type} [Scalar α] : DecidableLE α := Scalar.leDecidable

namespace Scalar

variable {α : Type} [Scalar α]

/-- zero -/
def zero : α := ofInt 0

/-- one -/
def one : α := ofInt 1

/-- the fraction `k / 2 ^ 53`, which is how a draw enters the arithmetic -/
def unit (k : Nat) : α := ofInt k / ofInt (Nat.pow 2 53 : Nat)

/-- the second argument if it is strictly smaller, else the first -/
def least (a b : α) : α := if b < a then b else a

/-- the second argument if it is strictly greater, else the first -/
def greatest (a b : α) : α := if a < b then b else a

/-- the distance from zero -/
def magnitude (a : α) : α := if a < zero then -a else a

/-- `a` moved into the span from `lo` to `hi` -/
def clamp (lo hi a : α) : α := least (greatest a lo) hi

/-- the quotient, refused for a divisor equal to zero -/
def divide (a b : α) : Except NumberError α :=
  if b == zero then .error .divisionByZero else .ok (a / b)

/-- the least of a list by running comparison, if it has an element -/
def leastOf : List α → Option α
  | [] => none
  | a :: as => some (as.foldl least a)

/-- the greatest of a list by running comparison, if it has an element -/
def greatestOf : List α → Option α
  | [] => none
  | a :: as => some (as.foldl greatest a)

end Scalar

end SceneGrammar
