/-
How numbers are written.

`Layout.plain` writes a double with the fewest digits that read back; `Layout.general` with at most six significant
digits and no trailing zeros; `fixedText` with a fixed number of places. The first two differ only in a `Layout`
record: where positional notation ends and whether a whole number keeps a point.
-/
import SceneGrammar.Binary64
import SceneGrammar.Decimal.Shortest
import SceneGrammar.Spatial

namespace SceneGrammar.Decimal

/-- the digits of a natural -/
def digitsText (n : Nat) : String := String.ofList (Nat.toDigits 10 n)

/-- a run of zeros -/
def zeros (n : Nat) : String := String.ofList (List.replicate n '0')

/-- the choices of a decimal notation -/
structure Layout where
  /-- exponents from here on are written with an exponent -/
  positionalBelow : Int
  /-- a whole number is written with a point and a zero -/
  keepsPoint : Bool

namespace Layout

/-- the fewest digits that read back are positional below `10 ^ 16` -/
def plain : Layout := ⟨16, true⟩

/-- six significant digits are positional below a million -/
def general : Layout := ⟨6, false⟩

/-- exponents below this are written with an exponent in every notation -/
def positionalFrom : Int := -4

/-- a numeral as text; trailing zeros of its digits are not significant -/
def text (l : Layout) (n : Numeral) : String :=
  let digits := (Nat.toDigits 10 n.digits).reverse.dropWhile (· == '0')
  let significant := digits.reverse
  let count := significant.length
  let exponent : Int := n.exponent + digitCount n.digits - 1
  if count = 0 then (if l.keepsPoint then "0.0" else "0")
  else if positionalFrom ≤ exponent ∧ exponent < l.positionalBelow then
    if exponent < 0 then "0." ++ zeros (-exponent - 1).toNat ++ String.ofList significant
    else
      let whole := exponent.toNat + 1
      if count ≤ whole then
        String.ofList significant ++ zeros (whole - count) ++ (if l.keepsPoint then ".0" else "")
      else String.ofList (significant.take whole) ++ "." ++ String.ofList (significant.drop whole)
  else
    let point := if count = 1 then "" else "." ++ String.ofList (significant.drop 1)
    let size := digitsText exponent.natAbs
    String.ofList (significant.take 1) ++ point ++ "e" ++ (if exponent < 0 then "-" else "+")
      ++ (if size.length < 2 then "0" else "") ++ size

end Layout

/-- a sign in front of a text -/
def signed (negative : Bool) (s : String) : String := if negative then "-" ++ s else s

/-- text of a double that has no digits, or what `finite` makes of sign, significand and exponent -/
def readingText (x : Float) (finite : Bool → Nat → Int → String) : String :=
  match Binary64.read x with
  | .notANumber => "nan"
  | .infinite negative => signed negative "inf"
  | .finite negative m q => finite negative m q

/-- the shortest text that reads back as `x` -/
def plainText (x : Float) : String :=
  readingText x fun negative m q =>
    signed negative (Layout.plain.text (if m = 0 then ⟨0, 0⟩ else shortest m q))

/-- `num / den` rounded to six significant digits -/
def sixDigits (num den : Nat) : Numeral :=
  let e := magnitude num den - 5
  let (num, den) := shift num den (-e)
  ⟨Rounding.nearest num den, e⟩

/-- the exact value `m * 2 ^ q` as a fraction -/
def fractionOf (m : Nat) (q : Int) : Nat × Nat := (m * Nat.pow 2 q.toNat, Nat.pow 2 (-q).toNat)

/-- `x` with six significant digits -/
def generalText (x : Float) : String :=
  readingText x fun negative m q =>
    let (num, den) := fractionOf m q
    signed negative (Layout.general.text (if m = 0 then ⟨0, 0⟩ else sixDigits num den))

/-- `x` with a fixed positive number of places -/
def fixedText (places : Nat) (x : Float) : String :=
  readingText x fun negative m q =>
    let (num, den) := fractionOf m q
    let n := Rounding.nearest (num * Nat.pow 10 places) den
    let low := digitsText (n % Nat.pow 10 places)
    signed negative (digitsText (n / Nat.pow 10 places) ++ "." ++ zeros (places - low.length) ++ low)

end SceneGrammar.Decimal

namespace SceneGrammar

/-- a vector as it is shown -/
def Vector3.text (v : Vector3 Float) : String :=
  "(" ++ Decimal.generalText v.x ++ ", " ++ Decimal.generalText v.y ++ ", " ++ Decimal.generalText v.z ++ ")"

end SceneGrammar
