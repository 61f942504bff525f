/-
Reading numbers from text.

An integer is an optional sign and digits; a real may have a point, an exponent, or be one of the words for the
undefined and infinite values. Single underscores may stand between digits, and blanks around the whole. `wholeReal?`
also takes an integer written with a point and zeros behind it. What counts as a digit is a parameter (`digit?`).
-/
import SceneGrammar.Binary64
import SceneGrammar.Text.Digit

namespace SceneGrammar.Decimal

/-- blanks that may stand around a number -/
def isBlank (c : Char) : Bool :=
  let n := c.toNat
  (9 ≤ n ∧ n ≤ 13) ∨ (28 ≤ n ∧ n ≤ 32) ∨ n = 0x85 ∨ n = 0xa0 ∨ n = 0x1680 ∨ (0x2000 ≤ n ∧ n ≤ 0x200a)
    ∨ n = 0x2028 ∨ n = 0x2029 ∨ n = 0x202f ∨ n = 0x205f ∨ n = 0x3000

/-- a text without the blanks around it -/
def trimmed (s : String) : List Char :=
  ((s.toList.dropWhile isBlank).reverse.dropWhile isBlank).reverse

/-- a run of digits at the start of a text: its value, how many they are, and the rest -/
structure DigitRun where
  value : Nat
  count : Nat
  rest : List Char

variable (digit? : Char → Option Nat)

/-- read the digits after `value`, of which `count` have been read; an underscore must stand between two -/
def digitRunFrom (value count : Nat) : List Char → DigitRun
  | [] => ⟨value, count, []⟩
  | '_' :: d :: rest =>
    match digit? d with
    | some n => if 0 < count then digitRunFrom (10 * value + n) (count + 1) rest else ⟨value, count, '_' :: d :: rest⟩
    | none => ⟨value, count, '_' :: d :: rest⟩
  | c :: rest =>
    match digit? c with
    | some n => digitRunFrom (10 * value + n) (count + 1) rest
    | none => ⟨value, count, c :: rest⟩

/-- the run of digits at the start of a text -/
def digitRun (cs : List Char) : DigitRun := digitRunFrom digit? 0 0 cs

/-- the number of digits that an integer may have -/
def digitLimit : Nat := 4300

/-- take a sign off the start of a text; whether it is negative -/
def takeSign : List Char → Bool × List Char
  | '-' :: cs => (true, cs)
  | '+' :: cs => (false, cs)
  | cs => (false, cs)

/-- a natural with a sign -/
def withSign (negative : Bool) (n : Nat) : Int := if negative then -(n : Int) else n

/-- an integer, read -/
def int? (s : String) : Option Int :=
  let (negative, cs) := takeSign (trimmed s)
  let run := digitRun digit? cs
  if run.count = 0 ∨ digitLimit < run.count ∨ !run.rest.isEmpty then none else some (withSign negative run.value)

/-- an integer, perhaps written with a point and zeros behind it -/
def wholeReal? (s : String) : Option Int :=
  let (negative, cs) := takeSign (trimmed s)
  let run := digitRun digit? cs
  if run.count = 0 ∨ digitLimit < run.count then none
  else
    match run.rest with
    | [] => some (withSign negative run.value)
    | '.' :: zeros => if !zeros.isEmpty ∧ zeros.all (· == '0') then some (withSign negative run.value) else none
    | _ => none

/-- read an exponent: nothing, or a letter and an integer -/
def exponent? : List Char → Option Int
  | [] => some 0
  | c :: cs =>
    if c = 'e' ∨ c = 'E' then
      let (negative, cs) := takeSign cs
      let run := digitRun digit? cs
      if run.count = 0 ∨ !run.rest.isEmpty then none else some (withSign negative run.value)
    else none

/-- the words for values without digits -/
def word? (negative : Bool) (cs : List Char) : Option Float :=
  match String.ofList (cs.map Char.toLower) with
  | "inf" => some (if negative then -1.0 / 0.0 else 1.0 / 0.0)
  | "infinity" => some (if negative then -1.0 / 0.0 else 1.0 / 0.0)
  | "nan" => some (0.0 / 0.0)
  | _ => none

/-- a real, read -/
def real? (s : String) : Option Float :=
  let (negative, cs) := takeSign (trimmed s)
  let whole := digitRun digit? cs
  let (places, rest) := match whole.rest with
    | '.' :: rest =>
      let places := digitRun digit? rest
      (places, places.rest)
    | rest => (⟨0, 0, []⟩, rest)
  if whole.count + places.count = 0 then word? negative cs
  else
    (exponent? digit? rest).map fun e =>
      Binary64.ofDecimal negative (whole.value * Nat.pow 10 places.count + places.value) (e - places.count)

end SceneGrammar.Decimal
