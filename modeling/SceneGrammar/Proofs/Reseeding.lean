/-
A source that is started again forgets what it went through.

`Call` is what a source is asked for, `Reply` what it answers; a call that fails is answered, too. `transcript` lists the
replies to a sequence of calls, each with the number of draws since the last start. `Step` is whatever can be done to a
source, and `Started seed r` says that `r` was made with `seed` and nothing was done to it, or that it was started under
`seed` after any steps whatever.

- `Keyed`: between two starts a source is its seed and its number of draws; the key is the seed's, or not taken yet.
- `Keyed.ask`: a call is answered by the hash of the key and the number of draws, and counts on by one if it draws.
- `reseeding_forgets`: sources started under seeds that are equal modulo `2 ^ 64` have the same transcripts, and a
  transcript is read off the hash.
-/
import Mathlib.Data.Int.ModEq
import SceneGrammar.Proofs.Exact
import SceneGrammar.Random

namespace SceneGrammar.RandomSource

variable {α : Type}

/-- what a source is asked for -/
inductive Call (α : Type) where
  | integer (low high : Int)
  | fraction
  | coin (probability : α)

/-- what a source answers -/
inductive Reply (α : Type) where
  | integer (x : Except RangeError Int)
  | fraction (x : α)
  | coin (heads : Bool)

/-- whatever can be done to a source -/
inductive Step (α : Type) where
  | ask (c : Call α)
  | reset
  | reseed (seed : Int)

namespace Call

/-- whether a call takes a value; a range that is empty is refused before -/
def draws : Call α → Bool
  | .integer low high => low < high
  | _ => true

variable [Scalar α]

/-- how a call is answered if the value it takes is `k / 2 ^ 53` -/
def reply (c : Call α) (k : Nat) : Reply α :=
  match c with
  | .integer low high => .integer (if high ≤ low then .error (.empty low high) else scaled low high k)
  | .fraction => .fraction (Scalar.unit k)
  | .coin probability => .coin (decide (Scalar.unit k < probability))

/-- put a call to a source -/
def ask (c : Call α) (r : RandomSource) (e : Entropy) : Reply α × RandomSource × Entropy :=
  match c with
  | .integer low high =>
    let (x, s) := r.nextInt low high e
    (.integer x, s)
  | .fraction =>
    let (k, s) := r.next e
    (.fraction (Scalar.unit k), s)
  | .coin probability =>
    let (heads, s) := r.nextBool probability e
    (.coin heads, s)

end Call

variable [Scalar α]

/-- what a step makes of a source and of the keys to come -/
def Step.run : Step α → RandomSource × Entropy → RandomSource × Entropy
  | .ask c, s => (c.ask s.1 s.2).2
  | .reset, s => s.1.reset s.2
  | .reseed seed, s => s.1.reseed seed s.2

/-- what many steps make of a new source -/
def lived (past : List (Step α)) (first : Int) (e : Entropy) : RandomSource × Entropy :=
  past.foldl (fun s d => d.run s) (ofSeed first, e)

/-- a source that has just been started under a seed, whatever it went through before -/
inductive Started (α : Type) [Scalar α] (seed : Int) : RandomSource → Prop where
  | fresh : Started α seed (ofSeed seed)
  | reset (past : List (Step α)) (first : Int) (e : Entropy) : (lived past first e).1.seed = seed →
      Started α seed ((lived past first e).1.reset (lived past first e).2).1
  | reseed (past : List (Step α)) (first : Int) (e : Entropy) :
      Started α seed ((lived past first e).1.reseed seed (lived past first e).2).1

/-- the replies to a sequence of calls, each with the number of draws after it -/
def transcript : List (Call α) → RandomSource → Entropy → List (Reply α × Nat)
  | [], _, _ => []
  | c :: calls, r, e =>
    let (a, r, e) := c.ask r e
    (a, r.draws) :: transcript calls r e

/-! ## Between two starts -/

/-- a source of a seed that has drawn `n` values since its last start -/
structure Keyed (seed : Int) (n : Nat) (r : RandomSource) : Prop where
  seed_eq : r.seed = seed
  draws_eq : r.draws = n
  key : r.key = some (keyOf seed) ∨ r.key = none ∧ n = 0

variable {seed : Int} {n : Nat} {r : RandomSource}

omit [Scalar α] in
theorem keyed_reset (h : r.seed ≠ 0) (e : Entropy) : Keyed r.seed 0 (r.reset e).1 := by
  rw [reset, if_neg h]
  exact ⟨rfl, rfl, .inl rfl⟩

theorem Started.keyed (h : Started α seed r) (hs : seed ≠ 0) : Keyed seed 0 r := by
  cases h with
  | fresh => exact ⟨rfl, rfl, .inr ⟨rfl, rfl⟩⟩
  | reset past first e hseed =>
    subst hseed
    exact keyed_reset hs _
  | reseed past first e => exact keyed_reset (r := { (lived past first e).1 with seed }) hs _

omit [Scalar α] in
/-- the next value is the hash of the key and the number of draws, also if the key is not taken yet -/
theorem Keyed.next (h : Keyed seed n r) (hs : seed ≠ 0) (e : Entropy) :
    r.next e = (fraction (word (keyOf seed) n), ⟨seed, some (keyOf seed), n + 1⟩, e) := by
  obtain ⟨rfl, rfl, hkey | ⟨hkey, hn⟩⟩ := h
  · simp only [RandomSource.next, hkey]
  · simp only [RandomSource.next, hkey, RandomSource.reset, if_neg hs, Option.getD_some, hn]

/-- **One call.** -/
theorem Keyed.ask (h : Keyed seed n r) (hs : seed ≠ 0) (c : Call α) (e : Entropy) :
    ∃ r', c.ask r e = (c.reply (fraction (word (keyOf seed) n)), r', e) ∧
      Keyed seed (n + if c.draws then 1 else 0) r' := by
  have hnext := h.next hs e
  have hdrawn : Keyed seed (n + 1) ⟨seed, some (keyOf seed), n + 1⟩ := ⟨rfl, rfl, .inl rfl⟩
  cases c with
  | integer low high =>
    rcases lt_or_ge low high with hlt | hge
    · refine ⟨_, ?_, by simpa [Call.draws, hlt] using hdrawn⟩
      simp only [Call.ask, Call.reply, nextInt, if_neg (not_le.2 hlt), hnext]
    · refine ⟨r, ?_, by simpa [Call.draws, not_lt.2 hge] using h⟩
      simp only [Call.ask, Call.reply, nextInt, if_pos hge]
  | fraction =>
    refine ⟨_, ?_, hdrawn⟩
    simp only [Call.ask, Call.reply, hnext]
  | coin probability =>
    refine ⟨_, ?_, hdrawn⟩
    simp only [Call.ask, Call.reply, nextBool, hnext]

/-! ## Transcripts -/

/-- the transcript that a key gives, counted on from a number of draws -/
def readings (key : UInt64) : Nat → List (Call α) → List (Reply α × Nat)
  | _, [] => []
  | n, c :: calls =>
    let m := n + if c.draws then 1 else 0
    (c.reply (fraction (word key n)), m) :: readings key m calls

/-- between two starts a transcript depends on the key and the number of draws only -/
theorem Keyed.transcript_eq (h : Keyed seed n r) (hs : seed ≠ 0) (calls : List (Call α)) (e : Entropy) :
    transcript calls r e = readings (keyOf seed) n calls := by
  induction calls generalizing n r with
  | nil => rfl
  | cons c calls ih =>
    obtain ⟨r', hask, h'⟩ := h.ask hs c e
    rw [transcript, hask, readings, ← ih h', ← h'.draws_eq]

/-- the reply to a call is read off the hash of the number of draws before it -/
theorem readings_getElem (key : UInt64) (n : Nat) (calls : List (Call α)) {i : Nat} (hi : i < calls.length) :
    (readings key n calls)[i]? =
      let before := n + (calls.take i).countP Call.draws
      some (calls[i].reply (fraction (word key before)), before + if calls[i].draws then 1 else 0) := by
  induction calls generalizing n i with
  | nil => exact absurd hi (Nat.not_lt_zero i)
  | cons c calls ih =>
    cases i with
    | zero => rfl
    | succ i =>
      have hcount : (c :: calls.take i).countP Call.draws =
          (if c.draws then 1 else 0) + (calls.take i).countP Call.draws := by
        rw [List.countP_cons, Nat.add_comm]
      simp only [readings, List.getElem?_cons_succ, List.getElem_cons_succ, List.take_succ_cons, hcount]
      rw [ih _ (Nat.lt_of_succ_lt_succ hi)]
      simp only [Nat.add_assoc]

omit [Scalar α] in
theorem keyOf_congr {s t : Int} (h : s ≡ t [ZMOD 2 ^ 64]) : keyOf s = keyOf t := by
  have hmod : s % (Nat.pow 2 64 : Nat) = t % (Nat.pow 2 64 : Nat) := h
  rw [keyOf, keyOf, Xxh64.wordOf, Xxh64.wordOf, hmod]

/-- **Reseeding forgets the past.** Let two sources be started under seeds other than zero that are equal modulo `2 ^ 64`,
each after whatever it went through, or made with its seed and not drawn from. To every sequence of calls, those that fail
included, both give the same replies with the same numbers of draws, whatever keys the pool has to come. The reply to each
call is the one read off the hash of the seed modulo `2 ^ 64` and the number of draws before; each call that draws counts
on by one, and a call for an integer of an empty range does not draw. -/
theorem reseeding_forgets {s t : Int} (hs : s ≠ 0) (ht : t ≠ 0) (hst : s ≡ t [ZMOD 2 ^ 64]) {r q : RandomSource}
    (hr : Started α s r) (hq : Started α t q) (calls : List (Call α)) (e e' : Entropy) :
    transcript calls r e = transcript calls q e' ∧ ((keyOf s).toNat : Int) = s % 2 ^ 64 ∧
      ∀ i (hi : i < calls.length),
        let before := (calls.take i).countP Call.draws
        (transcript calls r e)[i]? =
          some (calls[i].reply (fraction (word (keyOf s) before)), before + if calls[i].draws then 1 else 0) := by
  have hread := (hr.keyed hs).transcript_eq hs calls e
  refine ⟨?_, ?_, fun i hi => ?_⟩
  · rw [hread, (hq.keyed ht).transcript_eq ht calls e', keyOf_congr hst]
  · have hpos : 0 ≤ s % 2 ^ 64 := Int.emod_nonneg s (by decide)
    have hlt : (s % 2 ^ 64).toNat < 2 ^ 64 := by
      have := Int.emod_lt_of_pos s (show (0 : Int) < 2 ^ 64 by decide)
      omega
    have hword : (keyOf s).toNat = (s % 2 ^ 64).toNat := UInt64.toNat_ofNat_of_lt hlt
    rw [hword, Int.toNat_of_nonneg hpos]
  · rw [hread, readings_getElem _ _ _ hi]
    simp only [Nat.zero_add]

/-- Seeds whose low bits are all zero. One source is new; the other had no seed, was drawn from and asked in vain, and then
got its seed. The third of the calls fails and does not count. -/
theorem reseeding_forgets_low_bits :
    let past : List (Step ℚ) := [.ask .fraction, .ask (.integer 4 4), .reset, .reseed 9, .ask (.coin (1 / 2))]
    let q := ((lived past 0 ⟨fun _ => 77, 0⟩).1.reseed (-2 ^ 65) (lived past 0 ⟨fun _ => 77, 0⟩).2).1
    let calls : List (Call ℚ) := [.integer (-5) 100, .coin (1 / 3), .integer 2 1, .fraction]
    (2 ^ 64 : Int) ≠ 0 ∧ (-2 ^ 65 : Int) ≠ 0 ∧ (2 ^ 64 : Int) ≡ -2 ^ 65 [ZMOD 2 ^ 64] ∧
      transcript calls (ofSeed (2 ^ 64)) ⟨fun _ => 1, 0⟩ = transcript calls q ⟨fun _ => 2, 0⟩ ∧
      (transcript calls q ⟨fun _ => 2, 0⟩).map Prod.snd = [1, 2, 2, 3] ∧
      (transcript calls q ⟨fun _ => 2, 0⟩)[2]? = some (.integer (.error (.empty 2 1)), 2) := by
  intro past q calls
  have hmod : (2 ^ 64 : Int) ≡ -2 ^ 65 [ZMOD 2 ^ 64] := by decide
  obtain ⟨hsame, -, hread⟩ := reseeding_forgets (by decide) (by decide) hmod (.fresh : Started ℚ (2 ^ 64) _)
    (.reseed past 0 ⟨fun _ => 77, 0⟩) calls ⟨fun _ => 1, 0⟩ ⟨fun _ => 2, 0⟩
  refine ⟨by decide, by decide, hmod, hsame, rfl, ?_⟩
  rw [← hsame]
  exact hread 2 (by decide)

end SceneGrammar.RandomSource
