/-
Where a teardown comes before any deletion does.

Destroying a node deletes what its shape has generated, then destroys its children one by one, and so on below them. A
node under `n` may hang below generated content of another one that is met earlier; then a deletion gets it first. The
rest is exposed: `exposes w n m` says it by the walk of `n`, which goes through children alone in the order of the
teardown, and by what is reached from generated content. `Exposed` says it by the links on the way down
(`exposes_iff`).

A teardown of something else does not change it for the nodes that survive (`Kills.exposed_iff`).
-/
import SceneGrammar.Proofs.Extent

namespace SceneGrammar.World

variable {α κ σ : Type} {w v : World α κ σ} {d : List NodeId} {c : List ShapeId}

/-- the walk of `n` comes to `m`, and nothing that a node met before has generated leads to `m` -/
def exposes (w : World α κ σ) (n m : NodeId) : Bool :=
  (w.walk n).contains m &&
    !((w.walk n).takeWhile (· != m)).any fun p => (w.generatedAt p).any fun g => (w.reachable g).contains m

/-- a way down from `n` to `m` through children, on which neither generated content of a node passed nor a child further
left leads to `m` -/
inductive Exposed (w : World α κ σ) : NodeId → NodeId → Prop where
  | self {n : NodeId} : Exposed w n n
  | under {n k m : NodeId} {earlier later : List NodeId} : w.children n = earlier ++ k :: later →
      (∀ b ∈ w.generatedAt n ++ earlier, ¬ Reach w b m) → Exposed w k m → Exposed w n m

/-! ## Splitting a walk -/

/-- the part of a list before an element decides what holds of all before some place of it -/
theorem exists_split_iff {l : List NodeId} {m : NodeId} {Q : NodeId → Prop} :
    (∃ pre post, l = pre ++ m :: post ∧ ∀ p ∈ pre, Q p) ↔ m ∈ l ∧ ∀ p ∈ l.takeWhile (· != m), Q p := by
  constructor
  · rintro ⟨pre, post, rfl, hQ⟩
    refine ⟨by simp, fun p hp => hQ p ?_⟩
    induction pre with
    | nil => simp at hp
    | cons x pre ih =>
      rw [List.cons_append, List.takeWhile_cons] at hp
      split_ifs at hp with hx
      · rcases List.mem_cons.1 hp with rfl | hp
        · exact List.mem_cons_self
        · exact List.mem_cons_of_mem x (ih (fun q hq => hQ q (List.mem_cons_of_mem x hq)) hp)
      · simp at hp
  · rintro ⟨hm, hQ⟩
    refine ⟨l.takeWhile (· != m), (l.dropWhile (· != m)).tail, ?_, hQ⟩
    induction l with
    | nil => simp at hm
    | cons x l ih =>
      by_cases hx : x = m
      · simp [hx]
      · have hl := ih ((List.mem_cons.1 hm).resolve_left (Ne.symm hx)) fun p hp => hQ p (by simp [hx, hp])
        simpa [hx] using hl

/-- a place in a list of lists put together is a place in one of them -/
theorem flatMap_split {f : NodeId → List NodeId} {l pre post : List NodeId} {m : NodeId}
    (h : l.flatMap f = pre ++ m :: post) :
    ∃ earlier k later p q, l = earlier ++ k :: later ∧ f k = p ++ m :: q ∧ pre = earlier.flatMap f ++ p := by
  induction l generalizing pre with
  | nil => simp at h
  | cons x l ih =>
    rw [List.flatMap_cons] at h
    rcases List.append_eq_append_iff.1 h with ⟨r, rfl, hr⟩ | ⟨r, hr, hs⟩
    · obtain ⟨earlier, k, later, p, q, rfl, hk, rfl⟩ := ih hr
      exact ⟨x :: earlier, k, later, p, q, rfl, hk, by simp⟩
    · cases r with
      | nil =>
        rw [List.append_nil] at hr
        obtain ⟨earlier, k, later, p, q, rfl, hk, hp⟩ := @ih [] (by simpa using hs.symm)
        refine ⟨x :: earlier, k, later, p, q, rfl, hk, ?_⟩
        rw [List.flatMap_cons, List.append_assoc, ← hp, hr, List.append_nil]
      | cons y r =>
        obtain ⟨rfl, -⟩ := List.cons_eq_cons.1 hs
        exact ⟨[], x, l, pre, r, rfl, hr, rfl⟩

/-- two places of a list: one is before the other, or they are the same -/
theorem split_cases {l e r e' r' : List NodeId} {a b : NodeId} (h : l = e ++ a :: r) (h' : l = e' ++ b :: r') :
    a = b ∨ a ∈ e' ∨ b ∈ e := by
  rw [h] at h'
  rcases List.append_eq_append_iff.1 h' with ⟨x, rfl, hx⟩ | ⟨x, rfl, hx⟩
  · cases x with
    | nil => exact Or.inl (List.cons_eq_cons.1 hx).1
    | cons y x => exact Or.inr (Or.inl (by simp [(List.cons_eq_cons.1 hx).1]))
  · cases x with
    | nil => exact Or.inl (List.cons_eq_cons.1 hx).1.symm
    | cons y x => exact Or.inr (Or.inr (by simp [(List.cons_eq_cons.1 hx).1]))

/-! ## Walks and links -/

theorem Tame.child (t : Tame w) {n k : NodeId} (hk : k ∈ w.children n) : w.isAlive k = true ∧ n < k := by
  obtain ⟨hl, -, hlt⟩ := t.parent_alive k n ((t.mem_children k n).1 hk)
  exact ⟨hl, hlt⟩

/-- a walk with this many levels below a node is not cut short -/
def Covers (w : World α κ σ) (depth : Nat) (n : NodeId) : Prop := w.isAlive n = true ∧ w.nodes.size < n + depth

theorem Covers.below {depth : Nat} {n k : NodeId} (h : Covers w (depth + 1) n) (hl : w.isAlive k = true)
    (hlt : n < k) : Covers w depth k := by
  refine ⟨hl, h.2.trans_le ?_⟩
  calc n + (depth + 1) = n + 1 + depth := by rw [Nat.add_comm depth 1, Nat.add_assoc]
    _ ≤ k + depth := Nat.add_le_add_right hlt depth

theorem not_covers_zero {n : NodeId} : ¬ Covers w 0 n := fun h => absurd h.2 (not_lt.2 (le_size_of_isAlive h.1))

theorem covers_walk {n : NodeId} (hl : w.isAlive n = true) : Covers w (w.nodes.size + 1) n :=
  ⟨hl, by omega⟩

/-- what a walk meets is below the node by parents -/
theorem parents_of_mem_walk (t : Tame w) {depth : Nat} {n m : NodeId} (h : m ∈ w.walkWithin depth n) :
    Relation.ReflTransGen (fun a b => w.parentOf a = some b) m n := by
  induction depth generalizing n with
  | zero => simp [walkWithin] at h
  | succ depth ih =>
    rcases List.mem_cons.1 h with rfl | h
    · exact .refl
    · obtain ⟨k, hk, hm⟩ := List.mem_flatMap.1 h
      exact (ih hm).tail ((t.mem_children k n).1 hk)

theorem Tame.parents_le (t : Tame w) {m n : NodeId} (h : Relation.ReflTransGen (fun a b => w.parentOf a = some b) m n) :
    n ≤ m := by
  induction h with
  | refl => exact le_rfl
  | tail _ hp ih => exact (t.parent_alive _ _ hp).2.2.le.trans ih

/-- nothing is below two children of one node -/
theorem Tame.walks_disjoint (t : Tame w) {d e : Nat} {n j k m : NodeId} (hj : j ∈ w.children n) (hk : k ∈ w.children n)
    (hmj : m ∈ w.walkWithin d j) (hmk : m ∈ w.walkWithin e k) : j = k := by
  have hunique : Relator.RightUnique fun a b => w.parentOf a = some b :=
    fun a b c hb hc => Option.some.inj (hb.symm.trans hc)
  -- from one of the two up to the other is a step through their parent, which is older than both
  have hup (a b : NodeId) (ha : a ∈ w.children n) (hb : b ∈ w.children n)
      (hab : Relation.ReflTransGen (fun a b => w.parentOf a = some b) a b) : a = b := by
    rcases Relation.ReflTransGen.cases_head hab with heq | ⟨p, hp, hpb⟩
    · exact heq
    · have hpn : p = n := Option.some.inj (hp.symm.trans ((t.mem_children a n).1 ha))
      exact absurd (t.parents_le (hpn ▸ hpb)) (not_le.2 (t.child hb).2)
  rcases Relation.ReflTransGen.total_of_right_unique hunique (parents_of_mem_walk t hmj) (parents_of_mem_walk t hmk) with
    h | h
  · exact hup j k hj hk h
  · exact (hup k j hk hj h).symm

/-- what is reached is met by the walk through children, or is reached from generated content of a node met -/
theorem Reach.met (t : Tame w) {depth : Nat} {n m : NodeId} (hc : Covers w depth n) (h : Reach w n m) :
    m ∈ w.walkWithin depth n ∨ ∃ p ∈ w.walkWithin depth n, ∃ g ∈ w.generatedAt p, Reach w g m := by
  induction depth generalizing n with
  | zero => exact absurd hc not_covers_zero
  | succ depth ih =>
    cases h with
    | refl _ => exact Or.inl List.mem_cons_self
    | @step _ k _ _ hs hr =>
      rcases List.mem_append.1 hs with hk | hk
      · have hbelow : Covers w depth k := hc.below (t.child hk).1 (t.child hk).2
        rcases ih hbelow hr with hm | ⟨p, hp, hg⟩
        · exact Or.inl (List.mem_cons_of_mem n (List.mem_flatMap.2 ⟨k, hk, hm⟩))
        · exact Or.inr ⟨p, List.mem_cons_of_mem n (List.mem_flatMap.2 ⟨k, hk, hp⟩), hg⟩
      · exact Or.inr ⟨n, List.mem_cons_self, k, hk, hr⟩

theorem reach_of_mem_walk (t : Tame w) {depth : Nat} {n m : NodeId} (hl : w.isAlive n = true)
    (h : m ∈ w.walkWithin depth n) : Reach w n m := by
  induction depth generalizing n with
  | zero => simp [walkWithin] at h
  | succ depth ih =>
    rcases List.mem_cons.1 h with rfl | h
    · exact .refl hl
    · obtain ⟨k, hk, hm⟩ := List.mem_flatMap.1 h
      exact .step hl (List.mem_append_left _ hk) (ih (t.child hk).1 hm)

theorem Exposed.reach (t : Tame w) {n m : NodeId} (hl : w.isAlive n = true) (h : Exposed w n m) : Reach w n m := by
  induction h with
  | self => exact .refl hl
  | @under n k m earlier later hch _ _ ih =>
    have hk : k ∈ w.children n := by simp [hch]
    exact .step hl (List.mem_append_left _ hk) (ih (t.child hk).1)

theorem exposed_of_split (t : Tame w) {depth : Nat} {n m : NodeId} {pre post : List NodeId} (hc : Covers w depth n)
    (hsplit : w.walkWithin depth n = pre ++ m :: post) (hpre : ∀ p ∈ pre, ∀ g ∈ w.generatedAt p, ¬ Reach w g m) :
    Exposed w n m := by
  induction depth generalizing n pre post with
  | zero => exact absurd hc not_covers_zero
  | succ depth ih =>
    rw [walkWithin] at hsplit
    cases pre with
    | nil =>
      obtain ⟨rfl, -⟩ := List.cons_eq_cons.1 hsplit
      exact .self
    | cons x pre =>
      obtain ⟨rfl, hrest⟩ := List.cons_eq_cons.1 hsplit
      obtain ⟨earlier, k, later, p, q, hch, hk, rfl⟩ := flatMap_split hrest
      have hbelow {b : NodeId} (hb : b ∈ w.children n) : Covers w depth b := hc.below (t.child hb).1 (t.child hb).2
      have hkc : k ∈ w.children n := by simp [hch]
      refine .under hch (fun b hb hr => ?_) (ih (hbelow hkc) hk fun r hr => hpre r (by simp [hr]))
      rcases List.mem_append.1 hb with hb | hb
      · exact hpre n List.mem_cons_self b hb hr
      -- a child further left neither has `m` below it nor generated content of a node below it that leads there
      have hbc : b ∈ w.children n := by simp [hch, hb]
      rcases hr.met t (hbelow hbc) with hm | ⟨r, hr', g, hg, hgm⟩
      · have hmk : m ∈ w.walkWithin depth k := by simp [hk]
        have hnodup := t.children_nodup n
        rw [hch] at hnodup
        exact (List.nodup_append.1 hnodup).2.2 b hb k List.mem_cons_self (t.walks_disjoint hbc hkc hm hmk)
      · refine hpre r (List.mem_cons_of_mem n (List.mem_append_left _ ?_)) g hg hgm
        exact List.mem_flatMap.2 ⟨b, hb, hr'⟩

theorem Exposed.split (t : Tame w) {n m : NodeId} (h : Exposed w n m) {depth : Nat} (hc : Covers w depth n) :
    ∃ pre post, w.walkWithin depth n = pre ++ m :: post ∧ ∀ p ∈ pre, ∀ g ∈ w.generatedAt p, ¬ Reach w g m := by
  induction h generalizing depth with
  | self =>
    cases depth with
    | zero => exact absurd hc not_covers_zero
    | succ depth => exact ⟨[], _, rfl, by simp⟩
  | @under n k m earlier later hch hnone _ ih =>
    cases depth with
    | zero => exact absurd hc not_covers_zero
    | succ depth =>
      have halive (b : NodeId) (hb : b ∈ w.children n) := t.child hb
      have hkc : k ∈ w.children n := by simp [hch]
      obtain ⟨pre, post, hk, hpre⟩ := ih (hc.below (halive k hkc).1 (halive k hkc).2)
      refine ⟨n :: (earlier.flatMap (w.walkWithin depth) ++ pre), post ++ later.flatMap (w.walkWithin depth), ?_, ?_⟩
      · rw [walkWithin, hch]
        simp [hk]
      · intro p hp g hg hr
        rcases List.mem_cons.1 hp with rfl | hp
        · exact hnone g (List.mem_append_left _ hg) hr
        rcases List.mem_append.1 hp with hp | hp
        · obtain ⟨b, hb, hpb⟩ := List.mem_flatMap.1 hp
          have hlb := (halive b (by simp [hch, hb])).1
          have hbp := reach_of_mem_walk t hlb hpb
          refine hnone b (List.mem_append_right _ hb) (hbp.trans (.step hbp.alive_right ?_ hr))
          exact List.mem_append_right _ hg
        · exact hpre p hp g hg hr

/-- **Exposure.** The walk and the links say the same. -/
theorem exposes_iff (t : Tame w) {n m : NodeId} (hl : w.isAlive n = true) : w.exposes n m = true ↔ Exposed w n m := by
  have hpast : w.exposes n m = true ↔
      m ∈ w.walk n ∧ ∀ p ∈ (w.walk n).takeWhile (· != m), ∀ g ∈ w.generatedAt p, ¬ Reach w g m := by
    simp only [exposes, Bool.and_eq_true, List.contains_iff_mem, Bool.not_eq_true', List.any_eq_false,
      List.any_eq_true, not_exists, not_and, mem_reachable]
  rw [hpast, ← exists_split_iff]
  constructor
  · rintro ⟨pre, post, hsplit, hpre⟩
    exact exposed_of_split t (covers_walk hl) hsplit hpre
  · intro h
    exact h.split t (covers_walk hl)

/-! ## What a teardown leaves exposed -/

theorem Kills.reach_kept (k : Kills w v d c) {a m : NodeId} (h : Reach w a m) (hl : v.isAlive m = true) :
    Reach v a m := by
  induction h with
  | refl _ => exact .refl hl
  | step ha hs hr ih =>
    have hv := ih hl
    have hkept : v.isAlive _ = true := (k.torn.isAlive _).2 ⟨ha, fun hd =>
      ((k.torn.isAlive _).1 hl).2 (k.closed_reach hd (.step ha hs hr))⟩
    exact .step hkept (k.successor_kept hs hv.alive_left) hv

theorem Torn.generatedAt_of (h : Torn w v d c) {n g : NodeId} (hg : g ∈ v.generatedAt n) : g ∈ w.generatedAt n := by
  rw [generatedAt_eq, h.shapeOn?] at hg
  rw [generatedAt_eq]
  cases hs : w.shapeOn? n with
  | none => simp [hs] at hg
  | some s =>
    rw [hs, Option.elim_some, h.generatedBy] at hg
    split_ifs at hg
    · exact absurd hg List.not_mem_nil
    · exact hg

/-- a living node that was on a list stays on it -/
theorem Kills.generatedAt_kept (k : Kills w v d c) {n g : NodeId} (hg : g ∈ w.generatedAt n)
    (hl : v.isAlive g = true) : g ∈ v.generatedAt n := by
  obtain ⟨hlw, hd⟩ := (k.torn.isAlive g).1 hl
  rw [generatedAt_eq] at hg
  rw [generatedAt_eq, k.torn.shapeOn?]
  cases hs : w.shapeOn? n with
  | none => simp [hs] at hg
  | some s =>
    rw [hs, Option.elim_some] at hg
    rw [Option.elim_some, k.torn.generatedBy, if_neg fun hc => hd (k.spent s hc g hg hlw)]
    exact hg

/-- a teardown that leaves a node alive leaves it as exposed as it was -/
theorem Kills.exposed_iff (t : Tame w) (k : Kills w v d c) {n m : NodeId} (hl : v.isAlive m = true) :
    Exposed w n m ↔ Exposed v n m := by
  have hm := ((k.torn.isAlive m).1 hl).2
  constructor
  · intro h
    induction h with
    | self => exact .self
    | @under n b m earlier later hch hnone hb ih =>
      have hlb : w.isAlive b = true := (t.child (by simp [hch] : b ∈ w.children n)).1
      have hbd : b ∉ d := fun hbd => hm (k.closed_reach hbd (hb.reach t hlb))
      refine @Exposed.under _ _ _ v n b m (earlier.filter (· ∉ d)) (later.filter (· ∉ d)) ?_ ?_ (ih hl hm)
      · rw [k.torn.children, hch, List.filter_append, List.filter_cons_of_pos (by simpa using hbd)]
      · intro a ha hr
        refine hnone a ?_ (k.torn.reach_of hr)
        refine (List.mem_append.1 ha).elim (fun hg => List.mem_append_left _ (k.torn.generatedAt_of hg)) fun he => ?_
        exact List.mem_append_right _ (List.mem_filter.1 he).1
  · intro h
    induction h with
    | self => exact .self
    | @under n b m earlier later hch hnone hb ih =>
      rw [k.torn.children] at hch
      obtain ⟨e, r, hw, rfl, hr⟩ := List.filter_eq_append_iff.1 hch
      obtain ⟨e', r', rfl, he', -, -⟩ := List.filter_eq_cons_iff.1 hr
      rw [← List.append_assoc] at hw
      refine .under hw (fun a ha hr => ?_) (ih hl hm)
      have hva := (k.reach_kept hr hl).alive_left
      refine hnone a ?_ (k.reach_kept hr hl)
      rcases List.mem_append.1 ha with ha | ha
      · exact List.mem_append_left _ (k.generatedAt_kept ha hva)
      · have had := ((k.torn.isAlive a).1 hva).2
        rcases List.mem_append.1 ha with ha | ha
        · exact List.mem_append_right _ (List.mem_filter.2 ⟨ha, by simpa using had⟩)
        · exact absurd had (by simpa using he' a ha)

/-- where the shape on `n` has nothing generated that lives and the children further left have died, a node under a
child is exposed if it is so from that child -/
theorem Kills.exposed_child (t : Tame w) (k : Kills w v d c) {n b m : NodeId} {earlier later : List NodeId}
    (hch : w.children n = earlier ++ b :: later) (hgone : ∀ a ∈ earlier, a ∈ d)
    (hspent : ∀ g ∈ w.generatedAt n, ¬ w.isAlive g = true) (hm : Reach v b m) : Exposed w n m ↔ Exposed v b m := by
  have hlv := hm.alive_right
  have hmd := ((k.torn.isAlive m).1 hlv).2
  have hreach : Reach w b m := k.torn.reach_of hm
  rw [← k.exposed_iff t hlv]
  constructor
  · intro h
    cases h with
    | self => exact absurd (hreach.le t) (not_le.2 (t.child (by simp [hch] : b ∈ w.children n)).2)
    | @under _ b' _ earlier' later' hch' hnone hb' =>
      rcases split_cases hch hch' with rfl | he | he
      · exact hb'
      · exact absurd hreach (hnone b (List.mem_append_right _ he))
      · have hlb' : w.isAlive b' = true := (t.child (by simp [hch'] : b' ∈ w.children n)).1
        exact absurd (k.closed_reach (hgone b' he) (hb'.reach t hlb')) hmd
  · intro h
    refine .under hch (fun a ha hr => ?_) h
    rcases List.mem_append.1 ha with ha | ha
    · exact hspent a ha hr.alive_left
    · exact hmd (k.closed_reach (hgone a ha) hr)

end SceneGrammar.World
