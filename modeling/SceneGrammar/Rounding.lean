/-
Rounding of exact quotients and of naturals to a fixed number of binary digits, ties going to the even neighbour.

`nearest num den` is the rounded quotient. `toBits p n` is `n` with at most `p` significant binary digits; a natural
below `2 ^ p` is unchanged (`toBits_of_lt`).
-/
namespace SceneGrammar.Rounding

/-- the natural nearest to `num / den`, a tie going to the even one -/
def nearest (num den : Nat) : Nat :=
  let q := num / den
  let r := num % den
  if 2 * r < den then q
  else if den < 2 * r then q + 1
  else if q % 2 = 0 then q
  else q + 1

/-- the number of binary digits of `n`, none for zero -/
def width (n : Nat) : Nat :=
  if n = 0 then 0 else n.log2 + 1

/-- `n` rounded to `p` significant binary digits -/
def toBits (p n : Nat) : Nat :=
  let s := width n - p
  nearest n (Nat.pow 2 s) * Nat.pow 2 s

@[simp] theorem nearest_one (n : Nat) : nearest n 1 = n := by
  simp [nearest, Nat.mod_one]

theorem toBits_of_lt {p n : Nat} (h : n < Nat.pow 2 p) : toBits p n = n := by
  have hw : width n ≤ p := by
    unfold width
    split
    · omega
    · rename_i hn
      exact (Nat.log2_lt hn).2 h
  simp [toBits, Nat.sub_eq_zero_of_le hw]

end SceneGrammar.Rounding
