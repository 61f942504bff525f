/-
Doubles: what their bits stand for, the double nearest to an exact quotient, and the scalars they form.

`read` takes a double apart into sign, significand and binary exponent; the value of `.finite n m q` is `± m * 2 ^ q`.
`ofQuotient` goes back: it rounds an exact quotient to the nearest double, ties to the even significand, with gradual
underflow and infinity beyond the range.
-/
import SceneGrammar.Rounding
import SceneGrammar.Scalar

namespace SceneGrammar.Binary64

/-- what the bits of a double stand for -/
inductive Reading where
  | notANumber
  | infinite (negative : Bool)
  /-- the value `± significand * 2 ^ exponent` -/
  | finite (negative : Bool) (significand : Nat) (exponent : Int)
  deriving DecidableEq, Repr

/-- the reading of a double -/
def read (x : Float) : Reading :=
  let bits : Nat := x.toBits.toNat
  let negative := bits / Nat.pow 2 63 == 1
  let field : Nat := bits / Nat.pow 2 52 % 2048
  let fraction := bits % Nat.pow 2 52
  if field = 2047 then
    if fraction = 0 then .infinite negative else .notANumber
  else if field = 0 then .finite negative fraction (-1074)
  else .finite negative (fraction + Nat.pow 2 52) ((field : Int) - 1075)

/-- the bits of the nearest double to `num / den`, without the sign; `den` is positive -/
def magnitudeBits (num den : Nat) : Nat :=
  if num = 0 then 0
  else
    let e₀ : Int := (num.log2 : Int) - den.log2
    let small : Bool :=
      if 0 ≤ e₀ then num < den * Nat.pow 2 e₀.toNat else num * Nat.pow 2 (-e₀).toNat < den
    let e := if small then e₀ - 1 else e₀
    let q := max (e - 52) (-1074)
    let m := if 0 ≤ q then Rounding.nearest num (den * Nat.pow 2 q.toNat)
      else Rounding.nearest (num * Nat.pow 2 (-q).toNat) den
    let bits := if m < Nat.pow 2 52 then m else (q + 1075).toNat * Nat.pow 2 52 + (m - Nat.pow 2 52)
    min bits (2047 * Nat.pow 2 52)

/-- the double nearest to `± num / den` -/
def ofQuotient (negative : Bool) (num den : Nat) : Float :=
  Float.ofBits (UInt64.ofNat (magnitudeBits num den + if negative then Nat.pow 2 63 else 0))

/-- the double nearest to `± digits * 10 ^ exponent`; beyond `10 ^ 400` either way nothing more is told apart -/
def ofDecimal (negative : Bool) (digits : Nat) (exponent : Int) : Float :=
  let size : Int := digits.log2 / 3
  if 400 < exponent then ofQuotient negative (digits * Nat.pow 10 400) 1
  else if 0 ≤ exponent then ofQuotient negative (digits * Nat.pow 10 exponent.toNat) 1
  else if size + 400 < -exponent then ofQuotient negative 0 1
  else ofQuotient negative digits (Nat.pow 10 (-exponent).toNat)

/-- the double nearest to an integer -/
def ofInt (n : Int) : Float :=
  if n.natAbs < Nat.pow 2 53 then
    let x := n.natAbs.toUInt64.toFloat
    if n < 0 then -x else x
  else ofQuotient (n < 0) n.natAbs 1

/-- whether an integer rounds to a finite double -/
def fits (n : Int) : Bool :=
  Rounding.toBits 53 n.natAbs < Nat.pow 2 1024

/-- the greatest integer at or below a double -/
def floor (x : Float) : Except NumberError Int :=
  match read x with
  | .notANumber => .error .undefinedInteger
  | .infinite _ => .error .infiniteInteger
  | .finite negative m q =>
    let value : Int := if negative then -(m : Int) else m
    .ok (if 0 ≤ q then value * Nat.pow 2 q.toNat else Int.fdiv value (Nat.pow 2 (-q).toNat))

/-- the integer next to a double toward zero -/
def truncate (x : Float) : Except NumberError Int :=
  match read x with
  | .notANumber => .error .undefinedInteger
  | .infinite _ => .error .infiniteInteger
  | .finite negative m q =>
    let value : Int := if negative then -(m : Int) else m
    .ok (if 0 ≤ q then value * Nat.pow 2 q.toNat else Int.tdiv value (Nat.pow 2 (-q).toNat))

/-- the degrees of an angle times this is the angle -/
def radiansPerDegree : Float := 3.141592653589793 / 180.0

/-- cosine and sine of half an angle in degrees -/
def halfAngle (degrees : Float) : Except NumberError (Float × Float) :=
  let h := degrees * radiansPerDegree * 0.5
  if h.isInf then .error .infiniteAngle else .ok (h.cos, h.sin)

instance : Scalar Float where
  ofInt := ofInt
  fits := fits
  ltDecidable := inferInstance
  leDecidable := inferInstance
  floor := floor
  truncate := truncate
  cube x := Float.pow x 3.0
  halfAngle := halfAngle

end SceneGrammar.Binary64
