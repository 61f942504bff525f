/-
The heap is a correct priority queue.

`push` and `pop` keep the items (`push_perm`, `pop_perm`) whatever the comparison is. Where it ranks the items
(`Ranks`), they keep the order of the heap (`push_isHeap`, `pop_isHeap`), and the first item of a heap is a least one
(`IsHeap.first_least`).

Comparisons that agree on the items of a heap do the same to it (`push_agree`, `pop_agree`), so one that ranks these items
only is as good as one that ranks all.

`Rising` and `Sinking` say how much order is left while an item moves: everything but the pairs it takes part in, and
the items below it are not before the item above it.
-/
import Mathlib.Tactic
import SceneGrammar.Heap

namespace SceneGrammar.Heap

variable {ε : Type} {before : ε → ε → Bool}

/-! ## Items -/

theorem swap_perm (h : Array ε) (i j : Nat) : (h.swapIfInBounds i j).toList.Perm h.toList := by
  rw [Array.swapIfInBounds_def]
  split_ifs with hi hj
  · exact Array.perm_iff_toList_perm.1 (Array.swap_perm hi hj)
  · exact List.Perm.refl _
  · exact List.Perm.refl _

theorem rise_perm (moves : Nat) (h : Array ε) (i : Nat) : (rise before moves h i).toList.Perm h.toList := by
  induction moves generalizing h i with
  | zero => exact List.Perm.refl _
  | succ moves ih =>
    rw [rise]
    split_ifs with h0
    · exact List.Perm.refl _
    · split
      · split_ifs with hb
        · exact (ih _ _).trans (swap_perm _ _ _)
        · exact List.Perm.refl _
      · exact List.Perm.refl _

theorem sink_perm (moves : Nat) (h : Array ε) (i : Nat) : (sink before moves h i).1.toList.Perm h.toList := by
  induction moves generalizing h i with
  | zero => exact List.Perm.refl _
  | succ moves ih =>
    rw [sink]
    split
    · exact List.Perm.refl _
    · exact (ih _ _).trans (swap_perm _ _ _)

theorem push_perm (h : Array ε) (a : ε) : (push before h a).toList.Perm (a :: h.toList) := by
  refine (rise_perm _ _ _).trans ?_
  rw [Array.toList_push]
  exact List.perm_append_singleton a h.toList

/-- the last item takes the place of the first -/
theorem replaced_perm {h : Array ε} {first last : ε} (hf : h[0]? = some first) (hl : h.back? = some last)
    (hne : h.pop.isEmpty = false) : (first :: (h.pop.setIfInBounds 0 last).toList).Perm h.toList := by
  obtain ⟨l⟩ := h
  cases l with
  | nil => simp at hf
  | cons a l =>
    obtain rfl : a = first := by simpa using hf
    cases l using List.reverseRecOn with
    | nil => simp at hne
    | append_singleton l b =>
      obtain rfl : b = last := by simpa [Array.back?] using hl
      have hd : (a :: (l ++ [b])).dropLast = a :: l := by
        rw [← List.cons_append, List.dropLast_concat]
      simp only [List.pop_toArray, hd, List.setIfInBounds_toArray, List.set_cons_zero]
      exact List.Perm.cons a (List.perm_append_singleton b l).symm

/-- what `pop` leaves: nothing more than the first item was there, or the last one has sunk and risen from the top -/
theorem pop_cases {h rest : Array ε} {a : ε} (hp : pop before h = some (a, rest)) :
    h[0]? = some a ∧ ∃ last, h.back? = some last ∧
      (h.pop.isEmpty = true ∧ rest = h.pop ∨
        h.pop.isEmpty = false ∧ ∃ down, down = sink before h.pop.size (h.pop.setIfInBounds 0 last) 0 ∧
          rest = rise before down.1.size down.1 down.2) := by
  unfold pop at hp
  split at hp
  · rename_i first last hf hl
    simp only at hp
    split_ifs at hp with he
    · simp only [Option.some.injEq, Prod.mk.injEq] at hp
      exact ⟨hp.1 ▸ hf, last, hl, Or.inl ⟨he, hp.2.symm⟩⟩
    · simp only [Option.some.injEq, Prod.mk.injEq] at hp
      exact ⟨hp.1 ▸ hf, last, hl, Or.inr ⟨by simpa using he, _, rfl, hp.2.symm⟩⟩
  · exact absurd hp (by simp)

theorem pop_perm {h rest : Array ε} {a : ε} (hp : pop before h = some (a, rest)) :
    (a :: rest.toList).Perm h.toList := by
  obtain ⟨hf, last, hl, ⟨he, rfl⟩ | ⟨he, down, rfl, rfl⟩⟩ := pop_cases hp
  · obtain ⟨l⟩ := h
    cases l with
    | nil => simp at hf
    | cons b l =>
      obtain rfl : b = a := by simpa using hf
      cases l with
      | nil => exact List.Perm.refl _
      | cons c l => simp at he
  · refine List.Perm.trans (List.Perm.cons _ ?_) (replaced_perm hf hl he)
    exact (rise_perm _ _ _).trans (sink_perm _ _ _)

theorem mem_push {h : Array ε} {a b : ε} : b ∈ push before h a ↔ b = a ∨ b ∈ h := by
  rw [← Array.mem_toList_iff, (push_perm h a).mem_iff]
  simp

theorem mem_of_pop {h rest : Array ε} {a : ε} (hp : pop before h = some (a, rest)) {b : ε} :
    b ∈ h ↔ b = a ∨ b ∈ rest := by
  rw [← Array.mem_toList_iff, ← (pop_perm hp).mem_iff]
  simp

theorem exists_pop {h : Array ε} {a : ε} (hf : h[0]? = some a) : ∃ rest, pop before h = some (a, rest) := by
  obtain ⟨b, hb⟩ : ∃ b, h.back? = some b := by
    have : 0 < h.size := by
      by_contra hc
      rw [Array.getElem?_eq_none (by omega)] at hf
      exact absurd hf (by simp)
    exact ⟨_, Array.back?_eq_getElem?.trans (Array.getElem?_eq_getElem (by omega))⟩
  unfold pop
  rw [hf, hb]
  simp only
  split_ifs
  · exact ⟨_, rfl⟩
  · exact ⟨_, rfl⟩

/-! ## Order -/

/-- `a` may stand above `b` -/
def Atop (before : ε → ε → Bool) (a b : ε) : Prop := before b a = false

/-- a comparison that ranks all items -/
structure Ranks (before : ε → ε → Bool) : Prop where
  total : ∀ a b, Atop before a b ∨ Atop before b a
  trans : ∀ a b c, Atop before a b → Atop before b c → Atop before a c

theorem Ranks.atop_of_before (r : Ranks before) {a b : ε} (h : before a b = true) : Atop before a b :=
  (r.total a b).resolve_right fun hc => by rw [Atop, h] at hc; exact absurd hc (by simp)

/-- an item and the one above it are in order -/
def PairOk (before : ε → ε → Bool) (h : Array ε) (i : Nat) : Prop :=
  ∀ a p, h[i]? = some a → h[parent i]? = some p → Atop before p a

/-- every item and the one above it are in order -/
def IsHeap (before : ε → ε → Bool) (h : Array ε) : Prop := ∀ i, 0 < i → PairOk before h i

/-- the items below `i` and the one above it are in order -/
def GrandOk (before : ε → ε → Bool) (h : Array ε) (i : Nat) : Prop :=
  0 < i → ∀ j, 0 < j → parent j = i → ∀ a p, h[j]? = some a → h[parent i]? = some p → Atop before p a

/-- the order left while the item at `i` rises -/
structure Rising (before : ε → ε → Bool) (h : Array ε) (i : Nat) : Prop where
  pair : ∀ j, 0 < j → j ≠ i → PairOk before h j
  grand : GrandOk before h i

/-- the order left while the item at `i` sinks -/
structure Sinking (before : ε → ε → Bool) (h : Array ε) (i : Nat) : Prop where
  pair : ∀ j, 0 < j → j ≠ i → parent j ≠ i → PairOk before h j
  grand : GrandOk before h i

theorem parent_lt {i : Nat} (h : 0 < i) : parent i < i := by unfold parent; omega

theorem parent_eq_iff {i j : Nat} (h : 0 < j) : parent j = i ↔ j = 2 * i + 1 ∨ j = 2 * i + 2 := by
  unfold parent; omega

theorem getElem?_swap {h : Array ε} {i j : Nat} {a b : ε} (hi : h[i]? = some a) (hj : h[j]? = some b) (k : Nat) :
    (h.swapIfInBounds i j)[k]? = if k = i then some b else if k = j then some a else h[k]? := by
  obtain ⟨hi', rfl⟩ := Array.getElem?_eq_some_iff.1 hi
  obtain ⟨hj', rfl⟩ := Array.getElem?_eq_some_iff.1 hj
  rw [Array.swapIfInBounds_def, dif_pos hi', dif_pos hj', Array.getElem?_swap]
  by_cases h1 : k = i <;> by_cases h2 : k = j <;> simp_all [eq_comm]

/-- an item that is before the one above it changes places with it -/
theorem Rising.move (r : Ranks before) {h : Array ε} {i : Nat} {a p : ε} (o : Rising before h i) (h0 : 0 < i)
    (ha : h[i]? = some a) (hp : h[parent i]? = some p) (hb : before a p = true) :
    Rising before (h.swapIfInBounds i (parent i)) (parent i) := by
  have hlt := parent_lt h0
  have hap := r.atop_of_before hb
  constructor
  · intro j hj hjq b q hb' hq'
    rw [getElem?_swap ha hp] at hb' hq'
    have hjp := parent_lt hj
    by_cases hji : j = i
    · subst hji
      rw [if_pos rfl] at hb'
      rw [if_neg (by omega), if_pos rfl] at hq'
      cases hb'; cases hq'
      exact hap
    · rw [if_neg hji, if_neg hjq] at hb'
      by_cases hpi : parent j = i
      · rw [if_pos hpi] at hq'
        cases hq'
        exact o.grand h0 j hj hpi b _ hb' hp
      · rw [if_neg hpi] at hq'
        by_cases hpq : parent j = parent i
        · rw [if_pos hpq] at hq'
          cases hq'
          exact r.trans _ _ _ hap (o.pair j hj hji b p hb' (hpq ▸ hp))
        · rw [if_neg hpq] at hq'
          exact o.pair j hj hji b q hb' hq'
  · intro hq0 j hj hjq b g hb' hg'
    rw [getElem?_swap ha hp] at hb' hg'
    have hqq := parent_lt hq0
    rw [if_neg (by omega), if_neg (by omega)] at hg'
    have hpg : Atop before g p := o.pair (parent i) hq0 (by omega) p g hp hg'
    by_cases hji : j = i
    · subst hji
      rw [if_pos rfl] at hb'
      cases hb'
      exact hpg
    · have hjp := parent_lt hj
      rw [if_neg hji, if_neg (by omega)] at hb'
      exact r.trans _ _ _ hpg (o.pair j hj hji b p hb' (hjq ▸ hp))

theorem rise_isHeap (r : Ranks before) (moves : Nat) (h : Array ε) (i : Nat) (hm : i ≤ moves)
    (o : Rising before h i) : IsHeap before (rise before moves h i) := by
  induction moves generalizing h i with
  | zero => exact fun j hj => o.pair j hj (by omega)
  | succ moves ih =>
    rw [rise]
    split_ifs with h0
    · exact fun j hj => o.pair j hj (by omega)
    · have hi : 0 < i := Nat.pos_of_ne_zero h0
      have hlt := parent_lt hi
      split
      · rename_i a p ha hp
        split_ifs with hb
        · exact ih _ _ (by omega) (o.move r hi ha hp hb)
        · intro j hj
          by_cases hji : j = i
          · subst hji
            intro b q hb' hq'
            rw [ha] at hb'; rw [hp] at hq'
            cases hb'; cases hq'
            simpa [Atop] using hb
          · exact o.pair j hj hji
      · rename_i hn
        intro j hj
        by_cases hji : j = i
        · subst hji
          exact fun b q hb' hq' => absurd hq' (fun hq' => hn b q hb' hq')
        · exact o.pair j hj hji

/-- the smaller child stands under the item, and no other child is before it -/
theorem smallerChild_spec (r : Ranks before) {h : Array ε} {i c : Nat} (hc : smallerChild before h i = some c) :
    0 < c ∧ parent c = i ∧ ∃ b, h[c]? = some b ∧
      ∀ j, 0 < j → parent j = i → ∀ a, h[j]? = some a → Atop before b a := by
  unfold smallerChild at hc
  have hrefl (a : ε) : Atop before a a := (r.total a a).elim id id
  split at hc
  · exact absurd hc (by simp)
  · rename_i b hl hr
    cases hc
    refine ⟨by omega, by unfold parent; omega, b, hl, fun j hj hji a ha => ?_⟩
    rcases (parent_eq_iff hj).1 hji with rfl | rfl
    · rw [hl] at ha; cases ha; exact hrefl _
    · rw [hr] at ha; cases ha
  · rename_i l b hl hr
    split_ifs at hc with hb
    · cases hc
      refine ⟨by omega, by unfold parent; omega, l, hl, fun j hj hji a ha => ?_⟩
      rcases (parent_eq_iff hj).1 hji with rfl | rfl
      · rw [hl] at ha; cases ha; exact hrefl _
      · rw [hr] at ha; cases ha; exact r.atop_of_before hb
    · cases hc
      refine ⟨by omega, by unfold parent; omega, b, hr, fun j hj hji a ha => ?_⟩
      rcases (parent_eq_iff hj).1 hji with rfl | rfl
      · rw [hl] at ha; cases ha; simpa [Atop] using hb
      · rw [hr] at ha; cases ha; exact hrefl _

theorem smallerChild_none {h : Array ε} {i : Nat} (hc : smallerChild before h i = none) : h.size ≤ 2 * i + 1 := by
  unfold smallerChild at hc
  split at hc
  · rename_i hl
    exact Array.getElem?_eq_none_iff.1 hl
  · exact absurd hc (by simp)
  · split_ifs at hc

/-- an item changes places with its smaller child -/
theorem Sinking.move (r : Ranks before) {h : Array ε} {i c : Nat} {a : ε} (o : Sinking before h i)
    (ha : h[i]? = some a) (hc : smallerChild before h i = some c) :
    Sinking before (h.swapIfInBounds i c) c := by
  obtain ⟨hc0, hci, b, hb, hleast⟩ := smallerChild_spec r hc
  have hlt := parent_lt hc0
  constructor
  · intro j hj hjc hjpc x q hx hq
    rw [getElem?_swap ha hb] at hx hq
    have hjp := parent_lt hj
    rw [if_neg hjpc] at hq
    by_cases hji : j = i
    · subst hji
      rw [if_pos rfl] at hx
      rw [if_neg (by omega)] at hq
      cases hx
      exact o.grand hj c hc0 hci b q hb hq
    · rw [if_neg hji, if_neg hjc] at hx
      by_cases hpi : parent j = i
      · rw [if_pos hpi] at hq
        cases hq
        exact hleast j hj hpi x hx
      · rw [if_neg hpi] at hq
        exact o.pair j hj hji hpi x q hx hq
  · intro _ j hj hjc x q hx hq
    rw [getElem?_swap ha hb] at hx hq
    have hjp := parent_lt hj
    rw [if_pos hci] at hq
    rw [if_neg (by omega), if_neg (by omega)] at hx
    cases hq
    exact o.pair j hj (by omega) (by omega) x b hx (hjc ▸ hb)

theorem sink_rising (r : Ranks before) (moves : Nat) (h : Array ε) (i : Nat) (hm : h.size ≤ i + moves)
    (o : Sinking before h i) : Rising before (sink before moves h i).1 (sink before moves h i).2 := by
  have hleaf (h : Array ε) (i : Nat) (hs : h.size ≤ 2 * i + 1) (o : Sinking before h i) : Rising before h i := by
    refine ⟨fun j hj hji => ?_, o.grand⟩
    by_cases hpi : parent j = i
    · intro x _ hx _
      have := (parent_eq_iff hj).1 hpi
      rw [Array.getElem?_eq_none (by omega)] at hx
      exact absurd hx (by simp)
    · exact o.pair j hj hji hpi
  induction moves generalizing h i with
  | zero => exact hleaf h i (by omega) o
  | succ moves ih =>
    rw [sink]
    split
    · rename_i hc
      exact hleaf h i (smallerChild_none hc) o
    · rename_i c hc
      obtain ⟨hc0, hci, b, hb, -⟩ := smallerChild_spec r hc
      have hlt := parent_lt hc0
      have hcs := (Array.getElem?_eq_some_iff.1 hb).1
      have hi : h[i]? = some h[i] := Array.getElem?_eq_getElem (by omega)
      exact ih _ _ (by rw [Array.size_swapIfInBounds]; omega) (o.move r hi hc)

theorem sink_lt (moves : Nat) (h : Array ε) (i : Nat) (hi : i < h.size) :
    (sink before moves h i).2 < (sink before moves h i).1.size := by
  induction moves generalizing h i with
  | zero => exact hi
  | succ moves ih =>
    rw [sink]
    split
    · exact hi
    · rename_i c hc
      refine ih _ _ ?_
      rw [Array.size_swapIfInBounds]
      unfold smallerChild at hc
      split at hc
      · exact absurd hc (by simp)
      · rename_i hl _
        cases hc
        exact (Array.getElem?_eq_some_iff.1 hl).1
      · rename_i hl hr
        have := (Array.getElem?_eq_some_iff.1 hr).1
        split_ifs at hc <;> cases hc <;> omega

theorem push_isHeap (r : Ranks before) {h : Array ε} (o : IsHeap before h) (a : ε) :
    IsHeap before (push before h a) := by
  have hold (j : Nat) (b : ε) (hj : j ≠ h.size) (hb : (h.push a)[j]? = some b) : h[j]? = some b := by
    rwa [Array.getElem?_push, if_neg hj] at hb
  refine rise_isHeap r _ _ _ (by omega) ⟨fun j hj hjs b p hb hp => ?_, fun h0 j hj hjs b p hb _ => ?_⟩
  · have hlt := (Array.getElem?_eq_some_iff.1 (hold j b hjs hb)).1
    have hjp := parent_lt hj
    exact o j hj b p (hold j b hjs hb) (hold _ p (by omega) hp)
  · have := (parent_eq_iff hj).1 hjs
    rw [Array.getElem?_eq_none (by rw [Array.size_push]; omega)] at hb
    exact absurd hb (by simp)

theorem pop_isHeap (r : Ranks before) {h rest : Array ε} {a : ε} (o : IsHeap before h)
    (hp : pop before h = some (a, rest)) : IsHeap before rest := by
  obtain ⟨hf, last, hl, ⟨he, rfl⟩ | ⟨he, down, rfl, rfl⟩⟩ := pop_cases hp
  · intro j hj b p hb
    rw [Array.isEmpty_iff.1 he] at hb
    exact absurd hb (by simp)
  · have hpos : 0 < h.pop.size := by
      rw [Array.isEmpty_eq_false_iff] at he
      exact Array.size_pos_iff.2 he
    have hold (j : Nat) (b : ε) (hj : 0 < j) (hb : (h.pop.setIfInBounds 0 last)[j]? = some b) : h[j]? = some b := by
      rw [Array.getElem?_setIfInBounds_ne (by omega)] at hb
      have hs := (Array.getElem?_eq_some_iff.1 hb).1
      rw [Array.getElem?_pop, if_pos (by rw [Array.size_pop] at hs; omega)] at hb
      exact hb
    have hsink : Sinking before (h.pop.setIfInBounds 0 last) 0 := by
      refine ⟨fun j hj _ hjp b p hb hp => ?_, fun h0 => absurd h0 (lt_irrefl 0)⟩
      exact o j hj b p (hold j b hj hb) (hold _ p (Nat.pos_of_ne_zero hjp) hp)
    have hlt := @sink_lt _ before h.pop.size (h.pop.setIfInBounds 0 last) 0 (by simpa using hpos)
    exact rise_isHeap r _ _ _ hlt.le (sink_rising r _ _ _ (by simp) hsink)

theorem IsHeap.first_least (r : Ranks before) {h : Array ε} (o : IsHeap before h) {first : ε}
    (hf : h[0]? = some first) {a : ε} (ha : a ∈ h) : Atop before first a := by
  obtain ⟨i, hi, rfl⟩ := Array.mem_iff_getElem.1 ha
  induction i using Nat.strongRecOn with
  | _ i ih =>
    rcases Nat.eq_zero_or_pos i with rfl | h0
    · rw [Array.getElem?_eq_getElem hi] at hf
      cases hf
      exact (r.total _ _).elim id id
    · have hlt := parent_lt h0
      have hp : parent i < h.size := by omega
      exact r.trans _ _ _ (ih _ hlt hp (Array.getElem_mem hp))
        (o i h0 _ _ (Array.getElem?_eq_getElem hi) (Array.getElem?_eq_getElem hp))

/-- a change of the items that the comparison does not see keeps the order -/
theorem IsHeap.map {h : Array ε} (o : IsHeap before h) (f : ε → ε) (hf : ∀ a b, before (f a) (f b) = before a b) :
    IsHeap before (h.map f) := by
  intro i hi a p ha hp
  rw [Array.getElem?_map] at ha hp
  obtain ⟨a', ha', rfl⟩ := Option.map_eq_some_iff.1 ha
  obtain ⟨p', hp', rfl⟩ := Option.map_eq_some_iff.1 hp
  exact (hf a' p').trans (o i hi a' p' ha' hp')

theorem isHeap_empty : IsHeap before #[] := fun i _ a p ha => absurd ha (by simp)

/-! ## Comparisons that agree -/

/-- two comparisons that agree on the items with a property -/
def Agree (before other : ε → ε → Bool) (P : ε → Prop) : Prop := ∀ a b, P a → P b → before a b = other a b

section

variable {other : ε → ε → Bool} {P : ε → Prop} (ha : Agree before other P)

theorem forall_mem_swap {h : Array ε} (hP : ∀ a ∈ h, P a) (i j : Nat) : ∀ a ∈ h.swapIfInBounds i j, P a :=
  fun a hm => hP a (Array.mem_toList_iff.1 ((swap_perm h i j).mem_iff.1 (Array.mem_toList_iff.2 hm)))

include ha

theorem rise_agree (moves : Nat) {h : Array ε} (hP : ∀ a ∈ h, P a) (i : Nat) :
    rise before moves h i = rise other moves h i := by
  induction moves generalizing h i with
  | zero => rfl
  | succ moves ih =>
    rw [rise, rise]
    cases hi : h[i]? with
    | none => rfl
    | some a =>
      cases hp : h[parent i]? with
      | none => rfl
      | some p =>
        simp only [ha a p (hP a (Array.mem_of_getElem? hi)) (hP p (Array.mem_of_getElem? hp)),
          ih (forall_mem_swap hP i (parent i))]

theorem smallerChild_agree {h : Array ε} (hP : ∀ a ∈ h, P a) (i : Nat) :
    smallerChild before h i = smallerChild other h i := by
  unfold smallerChild
  cases hl : h[2 * i + 1]? with
  | none => rfl
  | some l =>
    cases hr : h[2 * i + 2]? with
    | none => rfl
    | some r => simp only [ha l r (hP l (Array.mem_of_getElem? hl)) (hP r (Array.mem_of_getElem? hr))]

theorem sink_agree (moves : Nat) {h : Array ε} (hP : ∀ a ∈ h, P a) (i : Nat) :
    sink before moves h i = sink other moves h i := by
  induction moves generalizing h i with
  | zero => rfl
  | succ moves ih =>
    rw [sink, sink, smallerChild_agree ha hP i]
    cases smallerChild other h i with
    | none => rfl
    | some c => exact ih (forall_mem_swap hP i c) c

theorem push_agree {h : Array ε} (hP : ∀ a ∈ h, P a) {a : ε} (hPa : P a) : push before h a = push other h a := by
  refine rise_agree ha _ (fun b hb => ?_) _
  rcases Array.mem_push.1 hb with hb | rfl
  · exact hP b hb
  · exact hPa

theorem pop_agree {h : Array ε} (hP : ∀ a ∈ h, P a) : pop before h = pop other h := by
  unfold pop
  cases hf : h[0]? with
  | none => rfl
  | some first =>
    cases hl : h.back? with
    | none => rfl
    | some last =>
      have hrest : ∀ a ∈ h.pop.setIfInBounds 0 last, P a := by
        intro a hm
        rcases Array.mem_or_eq_of_mem_setIfInBounds hm with hm | rfl
        · rw [← Array.mem_toList_iff, Array.toList_pop] at hm
          exact hP a (Array.mem_toList_iff.1 (List.mem_of_mem_dropLast hm))
        · exact hP _ (Array.mem_of_back? hl)
      have hsunk (moves i : Nat) : ∀ a ∈ (sink other moves (h.pop.setIfInBounds 0 last) i).1, P a := fun a hm =>
        hrest a (Array.mem_toList_iff.1 ((sink_perm _ _ _).mem_iff.1 (Array.mem_toList_iff.2 hm)))
      simp only [sink_agree ha _ hrest, rise_agree ha _ (hsunk _ _)]

end

end SceneGrammar.Heap
