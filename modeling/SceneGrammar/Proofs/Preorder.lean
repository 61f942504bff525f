/-
The walk of a snapshot, as a loop and as a recursion.

`reachable` works off a stack on which a node may wait more than once; it looks whether a node was seen only when the node
comes up. `visits` is a recursion that threads the nodes seen. Both take a bound. Two relations say what they do without
one: `WorksOff` is the loop until its stack is empty, `WalksAlong` the recursion to its end. A walk along the nodes on top
of a stack is what the loop does until they are worked off (`WalksAlong.worksOff`), whatever the lists lead to.

- `reachable_preorder`: both end, and visit the same nodes in the same order. In a forest in which all content of a node
  hangs below it, they walk through the children alone.
-/
import Mathlib.Logic.Relation
import SceneGrammar.Proofs.Rooted

namespace SceneGrammar

namespace World

variable {α κ σ : Type} {w : World α κ σ}

/-- the loop over a stack until it is empty: from the nodes seen at its start to those seen at its end, newest first -/
inductive WorksOff (w : World α κ σ) : List NodeId → List NodeId → List NodeId → Prop where
  | done (seen : List NodeId) : WorksOff w [] seen seen
  | skip {n : NodeId} {stack seen last : List NodeId} : n ∈ seen ∨ ¬ w.isAlive n = true → WorksOff w stack seen last →
      WorksOff w (n :: stack) seen last
  | visit {n : NodeId} {stack seen last : List NodeId} : n ∉ seen → w.isAlive n = true →
      WorksOff w (w.successors n ++ stack) (n :: seen) last → WorksOff w (n :: stack) seen last

/-- the recursive pre-order walk along some nodes to its end: a node that was seen or is dead is passed over; else it is
visited, then its children in order and what its shape has generated in order, then the rest -/
inductive WalksAlong (w : World α κ σ) : List NodeId → List NodeId → List NodeId → Prop where
  | done (seen : List NodeId) : WalksAlong w [] seen seen
  | skip {n : NodeId} {rest seen last : List NodeId} : n ∈ seen ∨ ¬ w.isAlive n = true → WalksAlong w rest seen last →
      WalksAlong w (n :: rest) seen last
  | visit {n : NodeId} {rest seen mid last : List NodeId} : n ∉ seen → w.isAlive n = true →
      WalksAlong w (w.successors n) (n :: seen) mid → WalksAlong w rest mid last → WalksAlong w (n :: rest) seen last

section

variable {ns ms stack seen mid last : List NodeId}

theorem WalksAlong.append (h : WalksAlong w ns seen mid) (i : WalksAlong w ms mid last) :
    WalksAlong w (ns ++ ms) seen last := by
  induction h with
  | done _ => exact i
  | skip hout _ ih => exact .skip hout (ih i)
  | visit hn hl hbelow _ _ ih => exact .visit hn hl hbelow (ih i)

theorem WalksAlong.subset (h : WalksAlong w ns seen last) : seen ⊆ last := by
  induction h with
  | done _ => exact List.Subset.refl _
  | skip _ _ ih => exact ih
  | visit _ _ _ _ ihb ih => exact List.Subset.trans (List.subset_cons_self _ _) (List.Subset.trans ihb ih)

/-- nodes that are all seen or dead are passed over -/
theorem walksAlong_skip (h : ∀ n ∈ ns, n ∈ seen ∨ ¬ w.isAlive n = true) : WalksAlong w ns seen seen := by
  induction ns with
  | nil => exact .done seen
  | cons n ns ih => exact .skip (h n List.mem_cons_self) (ih fun m hm => h m (List.mem_cons_of_mem n hm))

/-- **The stack.** What lies below on the stack waits until the nodes on top were walked along. -/
theorem WalksAlong.worksOff (h : WalksAlong w ns seen mid) (i : WorksOff w stack mid last) :
    WorksOff w (ns ++ stack) seen last := by
  induction h generalizing stack with
  | done _ => exact i
  | skip hout _ ih => exact .skip hout (ih i)
  | visit hn hl _ _ ihb ih => exact .visit hn hl (ihb (ih i))

/-- with steps for all that is before it, the loop stops at its empty stack -/
theorem WorksOff.reachFrom_eq (h : WorksOff w stack seen last) {steps : Nat} (hs : w.ahead stack seen ≤ steps) :
    w.reachFrom steps stack seen = last.reverse := by
  induction h generalizing steps with
  | done _ => cases steps <;> rfl
  | @skip n stack seen last hout _ ih =>
    have hpos : w.ahead (n :: stack) seen = w.ahead stack seen + 1 := by
      simp only [ahead, List.length_cons]
      omega
    obtain ⟨steps, rfl⟩ : ∃ k, steps = k + 1 := ⟨steps - 1, by omega⟩
    rw [reachFrom, if_pos (by simpa using hout)]
    exact ih (by omega)
  | @visit n stack seen last hn hl _ ih =>
    have hvisit := @ahead_visit _ _ _ w n stack seen hl hn
    obtain ⟨steps, rfl⟩ : ∃ k, steps = k + 1 := ⟨steps - 1, by omega⟩
    rw [reachFrom, if_neg (by simpa using ⟨hn, hl⟩)]
    exact ih (by omega)

end

/-! ## The recursion with a bound -/

/-- the living nodes that were not seen -/
def unseen (w : World α κ σ) (seen : List NodeId) : Finset NodeId :=
  (Finset.range (w.nodes.size + 1)).filter fun n => w.isAlive n = true ∧ n ∉ seen

theorem mem_unseen {seen : List NodeId} {n : NodeId} : n ∈ w.unseen seen ↔ w.isAlive n = true ∧ n ∉ seen := by
  rw [unseen, Finset.mem_filter, Finset.mem_range]
  exact and_iff_right_of_imp fun h => Nat.lt_succ_of_le (le_size_of_isAlive h.1)

theorem card_unseen_le {seen last : List NodeId} (h : seen ⊆ last) : (w.unseen last).card ≤ (w.unseen seen).card := by
  refine Finset.card_le_card fun n hn => ?_
  rw [mem_unseen] at hn ⊢
  exact ⟨hn.1, fun hs => hn.2 (h hs)⟩

theorem card_unseen_lt {seen : List NodeId} {n : NodeId} (hn : n ∉ seen) (hl : w.isAlive n = true) :
    (w.unseen (n :: seen)).card < (w.unseen seen).card := by
  refine Finset.card_lt_card ⟨fun m hm => ?_, fun hsub => ?_⟩
  · rw [mem_unseen] at hm ⊢
    exact ⟨hm.1, fun hs => hm.2 (List.mem_cons_of_mem n hs)⟩
  · exact (mem_unseen.1 (hsub (mem_unseen.2 ⟨hl, hn⟩))).2 List.mem_cons_self

theorem card_unseen_start (w : World α κ σ) : (w.unseen []).card ≤ w.nodes.size := by
  have hsub : w.unseen [] ⊆ Finset.Icc 1 w.nodes.size := by
    intro n hn
    have hl := (mem_unseen.1 hn).1
    refine Finset.mem_Icc.2 ⟨Nat.one_le_iff_ne_zero.2 ?_, le_size_of_isAlive hl⟩
    rintro rfl
    simp [isAlive, node?] at hl
  simpa using Finset.card_le_card hsub

/-- a recursion as deep as there are nodes to see comes to its end -/
theorem walksAlong_visits (depth : Nat) : ∀ ns seen : List NodeId, (w.unseen seen).card ≤ depth →
    WalksAlong w ns seen (ns.foldl (w.visits depth) seen) := by
  induction depth with
  | zero =>
    intro ns seen hd
    have hall (n : NodeId) (_ : n ∈ ns) : n ∈ seen ∨ ¬ w.isAlive n = true := by
      by_contra hn
      rw [not_or, not_not] at hn
      exact Finset.card_pos.2 ⟨n, mem_unseen.2 hn.symm⟩ |>.ne' (Nat.le_zero.1 hd)
    have hstay : ns.foldl (w.visits 0) seen = seen := by
      induction ns with
      | nil => rfl
      | cons n ns ih => exact ih fun m hm => hall m (List.mem_cons_of_mem n hm)
    rw [hstay]
    exact walksAlong_skip hall
  | succ depth ih =>
    intro ns
    induction ns with
    | nil => exact fun seen _ => .done seen
    | cons n ns ihn =>
      intro seen hd
      rw [List.foldl_cons, visits]
      by_cases hout : n ∈ seen ∨ ¬ w.isAlive n = true
      · rw [if_pos (by simpa using hout)]
        exact .skip hout (ihn seen hd)
      · rw [if_neg (by simpa using hout)]
        rw [not_or, not_not] at hout
        have hbelow := ih (w.successors n) (n :: seen) (Nat.le_of_lt_succ ((card_unseen_lt hout.1 hout.2).trans_le hd))
        have hseen : seen ⊆ (w.successors n).foldl (w.visits depth) (n :: seen) :=
          List.Subset.trans (List.subset_cons_self n seen) hbelow.subset
        exact .visit hout.1 hout.2 hbelow (ihn _ ((card_unseen_le hseen).trans hd))

/-! ## Forests -/

/-- a living node and one on its list of children -/
def Holds (w : World α κ σ) (p c : NodeId) : Prop := w.isAlive p = true ∧ c ∈ w.children p

/-- a node and those that hang under it, level by level -/
abbrev Below (w : World α κ σ) : NodeId → NodeId → Prop := Relation.ReflTransGen w.Holds

/-- the children of the living are alive, each on one list and once on it, and none hangs under itself -/
structure Forest (w : World α κ σ) : Prop where
  alive : ∀ p c, w.Holds p c → w.isAlive c = true
  nodup : ∀ p, w.isAlive p = true → (w.children p).Nodup
  one : ∀ p q c, w.Holds p c → w.Holds q c → p = q
  acyclic : ∀ n, ¬ Relation.TransGen w.Holds n n

/-- where links are right, the scene is a forest: children are younger -/
theorem Linked.forest (h : Linked w) : Forest w where
  alive _ _ hc := (h.lt_of_child hc.2).2
  nodup p _ := h.children_nodup p
  one p q c hp hq := Option.some.inj (((h.mem_children c p).1 hp.2).symm.trans ((h.mem_children c q).1 hq.2))
  acyclic n hn := by
    have hlt (m : NodeId) (hm : Relation.TransGen w.Holds n m) : n < m := by
      induction hm with
      | single hc => exact (h.lt_of_child hc.2).1
      | tail _ hc ih => exact ih.trans (h.lt_of_child hc.2).1
    exact lt_irrefl n (hlt n hn)

section

variable {n m p c d x : NodeId}

theorem Forest.alive_below (h : Forest w) (hn : w.isAlive n = true) (hm : w.Below n m) : w.isAlive m = true := by
  induction hm with
  | refl => exact hn
  | tail _ hc _ => exact h.alive _ _ hc

/-- nothing hangs under two children of one node -/
theorem Forest.disjoint (h : Forest w) (hc : w.Holds p c) (hd : w.Holds p d) (hcx : w.Below c x) (hdx : w.Below d x) :
    c = d := by
  -- the ancestors of `x` form a chain, and a child of `p` cannot hang under another one
  have hover {a b : NodeId} (ha : w.Holds p a) (hb : w.Holds p b) (hab : w.Below a b) : a = b := by
    rcases Relation.ReflTransGen.cases_tail hab with heq | ⟨q, haq, hq⟩
    · exact heq.symm
    · rw [h.one q p b hq hb] at haq
      exact absurd (Relation.TransGen.head' ha haq) (h.acyclic p)
  have hup : Relator.RightUnique (Function.swap w.Holds) := fun a b b' hb hb' => h.one b b' a hb hb'
  rcases Relation.ReflTransGen.total_of_right_unique hup (Relation.reflTransGen_swap.2 hcx)
    (Relation.reflTransGen_swap.2 hdx) with hcd | hdc
  · exact (hover hd hc (Relation.reflTransGen_swap.1 hcd)).symm
  · exact hover hc hd (Relation.reflTransGen_swap.1 hdc)

/-- a way down through living nodes on which none comes twice, and the depth that is left -/
structure DownPath (w : World α κ σ) (path : List NodeId) (m : NodeId) (depth : Nat) : Prop where
  nodup : path.Nodup
  above : ∀ a ∈ path, w.isAlive a = true ∧ Relation.TransGen w.Holds a m
  room : w.nodes.size < depth + path.length

/-- a way down comes to its end before its depth does -/
theorem Forest.descend (h : Forest w) {path : List NodeId} {depth : Nat} (g : DownPath w path m depth)
    (hm : w.isAlive m = true) : ∃ k, depth = k + 1 ∧ ∀ c, w.Holds m c → DownPath w (m :: path) c k := by
  have hnodup : (m :: path).Nodup :=
    List.nodup_cons.2 ⟨fun hmem => h.acyclic m (g.above m hmem).2, g.nodup⟩
  have hlength : (m :: path).length ≤ w.nodes.size := by
    have hsub : (m :: path).toFinset ⊆ w.unseen [] := by
      intro a ha
      rw [List.mem_toFinset, List.mem_cons] at ha
      refine mem_unseen.2 ⟨?_, List.not_mem_nil⟩
      rcases ha with rfl | ha
      · exact hm
      · exact (g.above a ha).1
    rw [← List.toFinset_card_of_nodup hnodup]
    exact (Finset.card_le_card hsub).trans (card_unseen_start w)
  have hroom := g.room
  rw [List.length_cons] at hlength
  obtain ⟨k, rfl⟩ : ∃ k, depth = k + 1 := ⟨depth - 1, by omega⟩
  refine ⟨k, rfl, fun c hc => ⟨hnodup, fun a ha => ?_, by rw [List.length_cons]; omega⟩⟩
  rcases List.mem_cons.1 ha with rfl | ha
  · exact ⟨hm, .single hc⟩
  · exact ⟨(g.above a ha).1, (g.above a ha).2.tail hc⟩

/-- a walk with room for it lists what hangs under its start -/
theorem Forest.mem_walkWithin (h : Forest w) (depth : Nat) : ∀ (path : List NodeId) (m : NodeId),
    DownPath w path m depth → w.isAlive m = true → ∀ x, x ∈ w.walkWithin depth m ↔ w.Below m x := by
  induction depth with
  | zero =>
    intro path m g hm
    obtain ⟨k, hk, -⟩ := h.descend g hm
    cases hk
  | succ depth ih =>
    intro path m g hm x
    obtain ⟨k, hk, hdown⟩ := h.descend g hm
    obtain rfl : k = depth := (Nat.succ.inj hk).symm
    rw [walkWithin, List.mem_cons, List.mem_flatMap]
    constructor
    · rintro (rfl | ⟨c, hc, hx⟩)
      · exact .refl
      · have hmc : w.Holds m c := ⟨hm, hc⟩
        exact .head hmc ((ih _ c (hdown c hmc) (h.alive m c hmc) x).1 hx)
    · intro hx
      rcases Relation.ReflTransGen.cases_head hx with rfl | ⟨c, hmc, hcx⟩
      · exact Or.inl rfl
      · exact Or.inr ⟨c, hmc.2, (ih _ c (hdown c hmc) (h.alive m c hmc) x).2 hcx⟩

/-- depth that is not needed changes nothing about a walk -/
theorem Forest.walkWithin_eq (h : Forest w) (depth : Nat) : ∀ (more : Nat) (path : List NodeId) (m : NodeId),
    DownPath w path m depth → DownPath w path m more → w.isAlive m = true →
    w.walkWithin depth m = w.walkWithin more m := by
  induction depth with
  | zero =>
    intro more path m g _ hm
    obtain ⟨k, hk, -⟩ := h.descend g hm
    cases hk
  | succ depth ih =>
    intro more path m g g' hm
    obtain ⟨k, hk, hdown⟩ := h.descend g hm
    obtain ⟨l, rfl, hdown'⟩ := h.descend g' hm
    obtain rfl : k = depth := (Nat.succ.inj hk).symm
    rw [walkWithin, walkWithin]
    refine congrArg (List.cons m) (List.flatMap_congr fun c hc => ?_)
    exact ih l _ c (hdown c ⟨hm, hc⟩) (hdown' c ⟨hm, hc⟩) (h.alive m c ⟨hm, hc⟩)

/-- children in a row, with nothing below them seen yet, are walked along one after the other -/
theorem Forest.walksAlong_children (h : Forest w) {depth : Nat} {m : NodeId}
    (hwalk : ∀ c, w.Holds m c → ∀ x, x ∈ w.walkWithin depth c ↔ w.Below c x)
    (each : ∀ c, w.Holds m c → ∀ seen, (∀ x, w.Below c x → x ∉ seen) →
      WalksAlong w [c] seen ((w.walkWithin depth c).reverse ++ seen))
    {cs : List NodeId} (hcs : cs.Nodup) (hheld : ∀ c ∈ cs, w.Holds m c) (seen : List NodeId)
    (hnew : ∀ c ∈ cs, ∀ x, w.Below c x → x ∉ seen) :
    WalksAlong w cs seen ((cs.flatMap (w.walkWithin depth)).reverse ++ seen) := by
  induction cs generalizing seen with
  | nil => exact .done seen
  | cons c cs ih =>
    obtain ⟨hc, hcs⟩ := List.nodup_cons.1 hcs
    have hmc := hheld c List.mem_cons_self
    have hrest := ih hcs (fun d hd => hheld d (List.mem_cons_of_mem c hd)) ((w.walkWithin depth c).reverse ++ seen) ?_
    · rw [List.flatMap_cons, List.reverse_append, List.append_assoc]
      exact (each c hmc seen (hnew c List.mem_cons_self)).append hrest
    · intro d hd x hx hmem
      have hmd := hheld d (List.mem_cons_of_mem c hd)
      rw [List.mem_append, List.mem_reverse, hwalk c hmc] at hmem
      rcases hmem with hcx | hseen
      · exact hc (h.disjoint hmc hmd hcx hx ▸ hd)
      · exact hnew d (List.mem_cons_of_mem c hd) x hx hseen

/-- **Forests.** Where the content of each node below hangs below that node itself, a walk goes through the children
alone: content has been seen before it comes up. -/
theorem Forest.walksAlong (h : Forest w) (depth : Nat) : ∀ (path : List NodeId) (m : NodeId) (seen : List NodeId),
    DownPath w path m depth → w.isAlive m = true →
    (∀ k, w.Below m k → ∀ g ∈ w.generatedAt k, w.isAlive g = true → w.Below k g) → (∀ x, w.Below m x → x ∉ seen) →
    WalksAlong w [m] seen ((w.walkWithin depth m).reverse ++ seen) := by
  induction depth with
  | zero =>
    intro path m seen g hm
    obtain ⟨k, hk, -⟩ := h.descend g hm
    cases hk
  | succ depth ih =>
    intro path m seen g hm hinside hfresh
    have hwalk := h.mem_walkWithin (depth + 1) path m g hm
    obtain ⟨k, hk, hdown⟩ := h.descend g hm
    obtain rfl : k = depth := (Nat.succ.inj hk).symm
    refine .visit (hfresh m .refl) hm ?_ (.done _)
    have hbelow : WalksAlong w (w.children m) (m :: seen)
        (((w.children m).flatMap (w.walkWithin k)).reverse ++ m :: seen) := by
      refine h.walksAlong_children (fun c hmc => h.mem_walkWithin k _ c (hdown c hmc) (h.alive m c hmc))
        (fun c hmc seen hnew => ?_) (h.nodup m hm) (fun c hc => ⟨hm, hc⟩) (m :: seen) fun c hc x hx hmem => ?_
      · exact ih _ c seen (hdown c hmc) (h.alive m c hmc) (fun k hk => hinside k (.head hmc hk)) hnew
      · rcases List.mem_cons.1 hmem with rfl | hseen
        · exact h.acyclic x (Relation.TransGen.head' ⟨hm, hc⟩ hx)
        · exact hfresh x (.head ⟨hm, hc⟩ hx) hseen
    have hall : (w.walkWithin (k + 1) m).reverse ++ seen =
        ((w.children m).flatMap (w.walkWithin k)).reverse ++ m :: seen := by
      rw [walkWithin, List.reverse_cons, List.append_assoc]
      rfl
    rw [hall]
    refine hbelow.append (walksAlong_skip fun g hg => or_iff_not_imp_right.2 fun hlg => ?_)
    rw [← hall, List.mem_append, List.mem_reverse, hwalk]
    exact Or.inl (hinside m .refl g hg (not_not.1 hlg))

end

/-! ## The main result -/

/-- **The walk of a snapshot.** In any world, whatever hangs or is listed where, in circles or more than once: the loop
works off its stack, and the recursion comes to its end, with the same nodes visited in the same order; a depth of as
many calls as there are nodes is enough for it. It visits the nodes reached from the start through living ones, each
once. From a living node, in a forest, where all living content of each node below hangs below that node, this is the
walk through the children. -/
theorem reachable_preorder (w : World α κ σ) (n : NodeId) :
    w.WorksOff [n] [] (w.reachable n).reverse ∧ w.WalksAlong [n] [] (w.reachable n).reverse ∧
    (∀ depth, w.nodes.size ≤ depth → (w.visits depth [] n).reverse = w.reachable n) ∧
    (w.reachable n).Nodup ∧ (∀ m, m ∈ w.reachable n ↔ Reach w n m) ∧
    (w.isAlive n = true → w.Forest →
      (∀ m, w.Below n m → ∀ g ∈ w.generatedAt m, w.isAlive g = true → w.Below m g) →
      w.reachable n = w.walk n ∧ ∀ depth, w.nodes.size < depth → w.walkWithin depth n = w.walk n) := by
  have hloop {last : List NodeId} (h : w.WalksAlong [n] [] last) :
      w.WorksOff [n] [] last ∧ w.reachable n = last.reverse := by
    have hoff : w.WorksOff [n] [] last := h.worksOff (.done last)
    exact ⟨hoff, hoff.reachFrom_eq (ahead_le_reachBound w n)⟩
  have hvisits (depth : Nat) (hd : w.nodes.size ≤ depth) : w.WalksAlong [n] [] (w.visits depth [] n) :=
    walksAlong_visits depth [n] [] ((card_unseen_start w).trans hd)
  have hstroll : w.WalksAlong [n] [] (w.reachable n).reverse := by
    rw [(hloop (hvisits _ le_rfl)).2, List.reverse_reverse]
    exact hvisits _ le_rfl
  refine ⟨(hloop hstroll).1, hstroll, fun depth hd => (hloop (hvisits depth hd)).2.symm, reachable_nodup w n,
    fun m => mem_reachable, fun hl hf hinside => ?_⟩
  have hdown (depth : Nat) (hd : w.nodes.size < depth) : w.DownPath [] n depth := ⟨List.nodup_nil, by simp, by simpa⟩
  have hwalk := hf.walksAlong (w.nodes.size + 1) [] n [] (hdown _ (Nat.lt_succ_self _)) hl hinside (by simp)
  refine ⟨?_, fun depth hd => hf.walkWithin_eq depth _ [] n (hdown depth hd) (hdown _ (Nat.lt_succ_self _)) hl⟩
  rw [(hloop hwalk).2, List.append_nil, List.reverse_reverse, walk]

end World

open World

/-- two roots; the first holds a gardener and a lantern with its lamp, and the second has the first and itself on its
list -/
def lanternShared : Prog Float (City.Kind Float) Unit Unit :=
  .perform (.createRoot (.of .roof) "home" none (.displaced .origin) none) fun home =>
    .perform (.createRoot (.of .roof) "abroad" none (.displaced .origin) none) fun abroad =>
      .perform (.createSymbol home (.of .roof) "gardener" none (.displaced .origin)) fun gardener =>
        .perform (.spawn gardener (.inline lantern) none (.displaced .origin)) fun _ =>
          .perform (.track home 5) fun _ => .perform (.track abroad 1) fun _ => .perform (.track abroad 2) fun _ => .done ()

/-- the second root leads to the tree of the first one and back to itself; below the first root all hangs in its place -/
theorem reachable_preorder_shared :
    let w := (lanternShared.run idle).after (.fresh ⟨fun _ => 0, 0⟩ ())
    w.reachable 2 = [2, 1, 3, 4, 5] ∧ (w.visits 5 [] 2).reverse = w.reachable 2 ∧ w.successors 1 = [3, 3, 5] ∧
      w.reachable 1 = w.walk 1 ∧ w.walkWithin 7 1 = w.walk 1 := by
  intro w
  have heeds : lanternShared.HeedsBy World.rooted idle (.fresh ⟨fun _ => 0, 0⟩ ()) :=
    Prog.heedsBy_perform (by decide +kernel) rfl <| Prog.heedsBy_perform (by decide +kernel) rfl <|
      Prog.heedsBy_perform (by decide +kernel) rfl <| Prog.heedsBy_perform (by decide +kernel) rfl <|
        Prog.heedsBy_perform (by decide +kernel) rfl <| Prog.heedsBy_perform (by decide +kernel) rfl <|
          Prog.heedsBy_perform (by decide +kernel) rfl rfl
  have hg : w.LivingForest := ((Reached.start (pristine_fresh _ _)).run splits_rooted heeds).livingForest
  have hsize : w.nodes.size = 5 := by decide +kernel
  have hholds : ∀ p ∈ [(1, 3), (3, 4), (4, 5)], w.isAlive p.1 = true ∧ p.2 ∈ w.children p.1 := by decide +kernel
  have h13 : w.Holds 1 3 := hholds (1, 3) (by simp)
  have h34 : w.Holds 3 4 := hholds (3, 4) (by simp)
  have h45 : w.Holds 4 5 := hholds (4, 5) (by simp)
  -- the second root does not hang under the first
  have hroot : ¬ w.Below 1 2 := by
    intro hb
    rcases Relation.ReflTransGen.cases_tail hb with heq | ⟨p, -, hp⟩
    · cases heq
    · have hparent := (hg.mem_children 2 p).1 hp.2
      rw [show w.parentOf 2 = none by decide +kernel] at hparent
      cases hparent
  have hinside (m : NodeId) (hm : w.Below 1 m) (g : NodeId) (hgen : g ∈ w.generatedAt m) : w.Below m g := by
    have hle : m ≤ 5 := hsize ▸ le_size_of_isAlive (hg.toLinked.forest.alive_below (by decide +kernel) hm)
    have hgens : w.generatedAt 0 = [] ∧ w.generatedAt 1 = [3, 5] ∧ w.generatedAt 3 = [4] ∧ w.generatedAt 4 = [] ∧
        w.generatedAt 5 = [] := by decide +kernel
    obtain ⟨h0, h1, h3, h4, h5⟩ := hgens
    interval_cases m
    · simp [h0] at hgen
    · rw [h1] at hgen
      rcases List.mem_cons.1 hgen with rfl | hgen
      · exact .single h13
      · rw [List.mem_singleton.1 hgen]
        exact ((Relation.ReflTransGen.single h13).tail h34).tail h45
    · exact absurd hm hroot
    · rw [h3, List.mem_singleton] at hgen
      exact hgen ▸ .single h34
    · simp [h4] at hgen
    · simp [h5] at hgen
  obtain ⟨-, -, hvisits, -⟩ := reachable_preorder w 2
  obtain ⟨-, -, -, -, -, hwalk⟩ := reachable_preorder w 1
  obtain ⟨heq, hdepth⟩ := hwalk (by decide +kernel) hg.toLinked.forest fun m hm g hgen _ => hinside m hm g hgen
  exact ⟨by decide +kernel, hvisits 5 hsize.le, by decide +kernel, heq, hdepth 7 (by omega)⟩

end SceneGrammar
