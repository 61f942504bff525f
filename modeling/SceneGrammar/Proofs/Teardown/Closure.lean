/-
Which nodes a teardown kills.

In a tame world `destroy n` kills the living nodes reached from `n` and `deleteGenerated` those reached from the list of
the shape, each once and after whatever it leads to (`destroy_killsFrom`, `clean_killsFrom`). The bound on the nesting
of calls is never met: a call along a child goes to a younger node, and a call along a list comes after that list was
emptied, so `effort` goes down (`effort_takeGenerated`).
-/
import SceneGrammar.Proofs.Teardown.Relation

namespace SceneGrammar.World

variable {α κ σ : Type}

/-! ## How deep calls can nest -/

theorem foldl_add_eq_sum {ε : Type} (f : ε → Nat) (l : List ε) :
    l.foldl (fun n s => n + f s) 0 = ∑ i ∈ Finset.range l.length, (l[i]?.map f).getD 0 := by
  induction l using List.reverseRecOn with
  | nil => rfl
  | append_singleton l a ih =>
    have hinit : ∑ i ∈ Finset.range l.length, ((l ++ [a])[i]?.map f).getD 0 =
        ∑ i ∈ Finset.range l.length, (l[i]?.map f).getD 0 := by
      refine Finset.sum_congr rfl fun i hi => ?_
      rw [List.getElem?_append_left (Finset.mem_range.1 hi)]
    rw [List.foldl_append, ih, List.length_append, List.length_singleton, Finset.sum_range_succ, hinit]
    simp

theorem trackedCount_eq (w : World α κ σ) :
    w.trackedCount = ∑ s ∈ Finset.range w.shapes.size, (w.generatedBy s).length := by
  unfold trackedCount
  rw [← Array.foldl_toList, foldl_add_eq_sum]
  refine Finset.sum_congr rfl fun s _ => ?_
  rw [Array.getElem?_toList, generatedBy, shape?]
  cases w.shapes[s]? with
  | none => rfl
  | some x => cases hx : x.generated <;> simp [hx]

theorem Torn.trackedCount_le {w v : World α κ σ} {dead : List NodeId} {cleaned : List ShapeId}
    (h : Torn w v dead cleaned) : v.trackedCount ≤ w.trackedCount := by
  rw [trackedCount_eq, trackedCount_eq, h.sizes.2]
  refine Finset.sum_le_sum fun s _ => ?_
  rw [h.generatedBy]
  split_ifs <;> simp

theorem generatedBy_takeGenerated (w : World α κ σ) (s t : ShapeId) :
    (w.takeGenerated s).generatedBy t = if t = s then [] else w.generatedBy t := by
  unfold takeGenerated generatedBy
  rw [shape?_modifyShape]
  by_cases h : t = s
  · cases w.shape? t <;> simp [h]
  · simp [h]

theorem trackedCount_takeGenerated {w : World α κ σ} {s : ShapeId} (h : w.generatedBy s ≠ []) :
    (w.takeGenerated s).trackedCount + 1 ≤ w.trackedCount := by
  have hs : s < w.shapes.size := by
    by_contra hc
    refine h ?_
    rw [generatedBy, shape?_eq_none_iff.2 (not_lt.1 hc)]
    rfl
  have hsize : (w.takeGenerated s).shapes.size = w.shapes.size := by simp [takeGenerated, modifyShape]
  rw [trackedCount_eq, trackedCount_eq, hsize]
  refine Nat.succ_le_of_lt (Finset.sum_lt_sum (fun t _ => ?_) ⟨s, Finset.mem_range.2 hs, ?_⟩)
  · rw [generatedBy_takeGenerated]
    split_ifs <;> simp
  · rw [generatedBy_takeGenerated, if_pos rfl]
    exact List.length_pos_iff.2 h

/-- the depth that calls along lists can use up -/
def effort (w : World α κ σ) : Nat := w.trackedCount * (w.nodes.size + 3)

theorem Torn.effort_le {w v : World α κ σ} {dead : List NodeId} {cleaned : List ShapeId}
    (h : Torn w v dead cleaned) : v.effort ≤ w.effort := by
  unfold effort
  rw [h.sizes.1]
  exact Nat.mul_le_mul_right _ h.trackedCount_le

/-- emptying a list leaves room for a walk along children -/
theorem effort_takeGenerated {w : World α κ σ} {s : ShapeId} (h : w.generatedBy s ≠ []) :
    (w.takeGenerated s).effort + (w.nodes.size + 3) ≤ w.effort := by
  have hle := Nat.mul_le_mul_right (w.nodes.size + 3) (trackedCount_takeGenerated h)
  rw [Nat.succ_mul] at hle
  exact hle

/-! ## Teardowns from given nodes -/

/-- a teardown that kills what is reached from `roots`, and empties lists of the dead or of `tops` alone -/
structure KillsFrom (w v : World α κ σ) (roots : List NodeId) (tops : List ShapeId) (dead : List NodeId)
    (cleaned : List ShapeId) : Prop extends Kills w v dead cleaned where
  hit : ∀ r ∈ roots, w.isAlive r = true → r ∈ dead
  reached : ∀ m ∈ dead, ∃ r ∈ roots, Reach w r m
  owned : ∀ s ∈ cleaned, s ∈ tops ∨ ∃ m ∈ dead, w.homeOf s = some m

section

variable {w v u : World α κ σ} {roots roots' r r' dead d e : List NodeId} {tops t t' cleaned c k : List ShapeId}

theorem KillsFrom.mem_dead_iff (h : KillsFrom w v roots tops dead cleaned) (m : NodeId) :
    m ∈ dead ↔ ∃ r ∈ roots, Reach w r m := by
  refine ⟨h.reached m, fun ⟨r, hr, hm⟩ => ?_⟩
  exact h.closed_reach (h.hit r hr hm.alive_left) hm

theorem KillsFrom.refl (w : World α κ σ) {roots : List NodeId} (tops : List ShapeId)
    (h : ∀ r ∈ roots, ¬ w.isAlive r = true) : KillsFrom w w roots tops [] [] :=
  { Kills.refl w with
    hit := fun r hr hl => absurd hl (h r hr)
    reached := by simp
    owned := by simp }

theorem KillsFrom.trans (h : KillsFrom w v r t d c) (i : KillsFrom v u r' t' e k) :
    KillsFrom w u (r ++ r') (t ++ t') (d ++ e) (c ++ k) :=
  { h.toKills.trans i.toKills with
    hit := by
      intro n hn hl
      rw [List.mem_append]
      rcases List.mem_append.1 hn with hn | hn
      · exact Or.inl (h.hit n hn hl)
      · by_cases hd : n ∈ d
        · exact Or.inl hd
        · exact Or.inr (i.hit n hn ((h.torn.isAlive n).2 ⟨hl, hd⟩))
    reached := by
      intro m hm
      rcases List.mem_append.1 hm with hm | hm
      · obtain ⟨n, hn, hr⟩ := h.reached m hm
        exact ⟨n, List.mem_append_left _ hn, hr⟩
      · obtain ⟨n, hn, hr⟩ := i.reached m hm
        exact ⟨n, List.mem_append_right _ hn, h.torn.reach_of hr⟩
    owned := by
      intro s hs
      rcases List.mem_append.1 hs with hs | hs
      · refine (h.owned s hs).imp (List.mem_append_left _) ?_
        rintro ⟨m, hm, hh⟩
        exact ⟨m, List.mem_append_left _ hm, hh⟩
      · refine (i.owned s hs).imp (List.mem_append_right _) ?_
        rintro ⟨m, hm, hh⟩
        exact ⟨m, List.mem_append_right _ hm, h.torn.homeOf s ▸ hh⟩ }

/-- the same teardown, told from other nodes that lead to the old ones -/
theorem KillsFrom.retold (h : KillsFrom w v roots tops dead cleaned)
    (hit : ∀ n ∈ roots', w.isAlive n = true → n ∈ dead)
    (lead : ∀ n ∈ roots, w.isAlive n = true → ∃ m ∈ roots', Reach w m n)
    (owned : ∀ s ∈ tops, s ∈ t' ∨ ∃ m ∈ dead, w.homeOf s = some m) : KillsFrom w v roots' t' dead cleaned :=
  { h.toKills with
    hit := hit
    reached := by
      intro m hm
      obtain ⟨n, hn, hr⟩ := h.reached m hm
      obtain ⟨k, hk, hkn⟩ := lead n hn hr.alive_left
      exact ⟨k, hk, hkn.trans hr⟩
    owned := fun s hs => (h.owned s hs).elim (owned s) Or.inr }

/-- what a loop over nodes kills -/
theorem KillsFrom.foldl {P : World α κ σ → Prop} {f : World α κ σ → NodeId → World α κ σ} {cs : List NodeId}
    (keep : ∀ w v d c, P w → Kills w v d c → P v)
    (one : ∀ w, P w → ∀ n ∈ cs, ∃ d c, KillsFrom w (f w n) [n] [] d c) (w : World α κ σ) (hw : P w) :
    ∃ d c, KillsFrom w (cs.foldl f w) cs [] d c := by
  induction cs generalizing w with
  | nil => exact ⟨[], [], KillsFrom.refl w [] (by simp)⟩
  | cons n cs ih =>
    obtain ⟨d, c, hn⟩ := one w hw n List.mem_cons_self
    obtain ⟨e, k, hrest⟩ := ih (fun v hv m hm => one v hv m (List.mem_cons_of_mem n hm)) (f w n)
      (keep w _ d c hw hn.toKills)
    exact ⟨d ++ e, c ++ k, hn.trans hrest⟩

end

/-! ## The two functions -/

/-- what a teardown needs of the world it starts in: it is tame, has `size` nodes and at most so much effort left -/
structure Ready (size effort : Nat) (w : World α κ σ) : Prop where
  tame : Tame w
  size_eq : w.nodes.size = size
  effort_le : w.effort ≤ effort

theorem Ready.kills {size effort : Nat} {w v : World α κ σ} {d : List NodeId} {c : List ShapeId}
    (h : Ready size effort w) (k : Kills w v d c) : Ready size effort v :=
  ⟨k.tame h.tame, k.torn.sizes.1.trans h.size_eq, k.torn.effort_le.trans h.effort_le⟩

theorem Kills.warnCleanup {w v : World α κ σ} {d : List NodeId} {c : List ShapeId} (h : Kills w v d c)
    (s : ShapeId) (n : NodeId) : Kills w (v.warnCleanup s n) d c := by
  have ht := h.torn
  have hsur := (surroundings_warnCleanup v s n).trans ht.surroundings
  unfold World.warnCleanup at hsur ⊢
  cases hx : v.node? n with
  | none => exact h
  | some x =>
    rw [hx] at hsur
    exact { h with torn := ⟨ht.1, ht.2, ht.3, ht.4, ht.5, ht.6, ht.7, ht.8, ht.9, hsur⟩ }

/-- the end of a node whose children and generated nodes are dead -/
theorem KillsFrom.bury {w : World α κ σ} (t : Tame w) {n : NodeId} (hl : w.isAlive n = true)
    (hs : ∀ b ∈ w.successors n, ¬ w.isAlive b = true) : KillsFrom w ((w.announce n).bury n) [n] [] [n] [] where
  torn := Torn.bury t.registry_nodup (fun p hp => (t.mem_children n p).1 hp) t.children_nodup
  nodup := List.nodup_singleton n
  alive := by simpa using hl
  first := by
    intro pre m post heq b hb hlb
    obtain ⟨rfl, rfl, rfl⟩ : pre = [] ∧ n = m ∧ post = [] := by
      cases pre with
      | nil => simpa using heq
      | cons x pre => simp at heq
    exact absurd hlb (hs b hb)
  spent := by simp
  hit := by simp
  reached := by simpa using Reach.refl hl
  owned := by simp

/-- the loop over children moves the world as if nobody collected faults -/
theorem foldl_destroy_fst (depth : Nat) (cs : List NodeId) (w : World α κ σ) (fault : Option (Fault α)) :
    (cs.foldl (fun (w, fault) c =>
      let (w, fault') := destroyWithin depth c w
      (w, fault <|> fault')) (w, fault)).1 = cs.foldl (fun w c => (destroyWithin depth c w).1) w := by
  induction cs generalizing w fault with
  | nil => rfl
  | cons c cs ih => exact ih _ _

/-- the world after the shape on a node, if there is one, was cleaned -/
def cleanAt (depth : Nat) (n : NodeId) (w : World α κ σ) : World α κ σ :=
  match w.shapeOn? n with
  | none => w
  | some s => cleanWithin depth s w

theorem destroyWithin_alive {depth : Nat} {w : World α κ σ} {n : NodeId} (hl : w.isAlive n = true) :
    (destroyWithin (depth + 1) n w).1 =
      ((((cleanAt depth n w).children n).foldl (fun w c => (destroyWithin depth c w).1)
        (cleanAt depth n w)).announce n).bury n := by
  rw [destroyWithin, if_pos hl, ← foldl_destroy_fst depth _ _ none]
  rfl

theorem destroyWithin_dead {depth : Nat} {w : World α κ σ} {n : NodeId} (hl : ¬ w.isAlive n = true) :
    (destroyWithin (depth + 1) n w).1 = w := by
  rw [destroyWithin, if_neg hl]

/-- calls of `destroyWithin` along younger and younger nodes stay within this depth -/
def DestroyKillsFrom (α κ σ : Type) (depth : Nat) : Prop :=
  ∀ (size effort : Nat) (w : World α κ σ) (n : NodeId), Ready size effort w → effort + (size + 3 - n) ≤ depth →
    ∃ d c, KillsFrom w (destroyWithin depth n w).1 [n] [] d c

/-- calls of `cleanWithin` along lists that get emptied stay within this depth, and leave an empty list -/
def CleanKillsFrom (α κ σ : Type) (depth : Nat) : Prop :=
  ∀ (size effort : Nat) (w : World α κ σ) (s : ShapeId), Ready size effort w → effort + 1 ≤ depth →
    ∃ d c, KillsFrom w (cleanWithin depth s w) (w.generatedBy s) [s] d c ∧ (cleanWithin depth s w).generatedBy s = []

theorem le_size_of_isAlive {w : World α κ σ} {n : NodeId} (h : w.isAlive n = true) : n ≤ w.nodes.size := by
  unfold isAlive at h
  cases hx : w.node? n with
  | none => simp [hx] at h
  | some x => exact (le_size_of_node? hx).2

/-- a node's shape, if it carries one, is cleaned first -/
theorem cleanAt_killsFrom {depth size effort : Nat} (ih : CleanKillsFrom α κ σ depth) {w : World α κ σ}
    (h : Ready size effort w) (hd : effort + 1 ≤ depth) (n : NodeId) :
    ∃ d c, KillsFrom w (cleanAt depth n w) (w.generatedAt n) (w.shapeOn? n).toList d c := by
  rw [generatedAt_eq, cleanAt]
  cases w.shapeOn? n with
  | none => exact ⟨[], [], KillsFrom.refl w [] (by simp)⟩
  | some s =>
    obtain ⟨d, c, hf, -⟩ := ih size effort w s h hd
    exact ⟨d, c, hf⟩

/-- nothing reaches back to an older node -/
theorem KillsFrom.notMem_of_lt {w v : World α κ σ} (t : Tame w) {roots : List NodeId} {tops : List ShapeId}
    {dead : List NodeId} {cleaned : List ShapeId} (h : KillsFrom w v roots tops dead cleaned) {n : NodeId}
    (hlt : ∀ r ∈ roots, n < r) : n ∉ dead := by
  intro hn
  obtain ⟨r, hr, hrn⟩ := h.reached n hn
  exact absurd (hrn.le t) (not_le.2 (hlt r hr))

/-- once a node's shape was cleaned and its children were destroyed, it leads to nothing that lives -/
theorem KillsFrom.successor_dead {w v u : World α κ σ} {n : NodeId} {tops t : List ShapeId} {d e : List NodeId}
    {c k : List ShapeId} (h : KillsFrom w v (w.generatedAt n) tops d c) (i : KillsFrom v u (v.children n) t e k) :
    ∀ b ∈ u.successors n, ¬ u.isAlive b = true := by
  intro b hb hlu
  obtain ⟨hlv, hbe⟩ := (i.torn.isAlive b).1 hlu
  obtain ⟨hlw, hbd⟩ := (h.torn.isAlive b).1 hlv
  rcases mem_successors.1 (i.torn.successor_of hb) with hc | ⟨s, hs, hg⟩
  · exact hbe (i.hit b hc hlv)
  · rw [h.torn.shapeOn?] at hs
    rw [h.torn.generatedBy] at hg
    split_ifs at hg
    · exact absurd hg (by simp)
    · refine hbd (h.hit b ?_ hlw)
      rw [generatedAt_eq, hs]
      exact hg

/-- the destruction of a living node begins with its shape's content, which leaves the node alive and in a world that
still has room for calls along younger nodes -/
theorem destroy_begins {depth size effort : Nat} (ihc : CleanKillsFrom α κ σ depth) {w : World α κ σ} {n : NodeId}
    (h : Ready size effort w) (hd : effort + (size + 3 - n) ≤ depth + 1) (hl : w.isAlive n = true) :
    (∃ d c, KillsFrom w (cleanAt depth n w) (w.generatedAt n) (w.shapeOn? n).toList d c) ∧
      Ready size effort (cleanAt depth n w) ∧ (cleanAt depth n w).isAlive n = true ∧
      ∀ b, n < b → effort + (size + 3 - b) ≤ depth := by
  have hn : n ≤ size := h.size_eq ▸ le_size_of_isAlive hl
  have hspare : effort + 1 ≤ depth := by
    have hpos : size + 3 - size ≤ size + 3 - n := Nat.sub_le_sub_left hn _
    omega
  obtain ⟨d, c, hf⟩ := cleanAt_killsFrom ihc h hspare n
  refine ⟨⟨d, c, hf⟩, h.kills hf.toKills, (hf.torn.isAlive n).2 ⟨hl, ?_⟩, fun b hb => ?_⟩
  · exact hf.notMem_of_lt h.tame fun r hr => h.tame.lt_of_successor (List.mem_append_right _ hr)
  · have hstep : size + 3 - b + 1 ≤ size + 3 - n :=
      Nat.sub_lt_sub_left (Nat.lt_of_le_of_lt hn (Nat.lt_add_of_pos_right (by decide))) hb
    omega

theorem destroy_step {depth : Nat} (ihd : DestroyKillsFrom α κ σ depth) (ihc : CleanKillsFrom α κ σ depth) :
    DestroyKillsFrom α κ σ (depth + 1) := by
  intro size effort w n h hd
  by_cases hl : w.isAlive n = true
  swap
  · rw [destroyWithin_dead hl]
    exact ⟨[], [], KillsFrom.refl w [] (by simpa using hl)⟩
  rw [destroyWithin_alive hl]
  -- its shape's content, its children, the node
  obtain ⟨⟨d, c, h1⟩, hr1, hl1, hroom⟩ := destroy_begins ihc h hd hl
  have hyoung (b : NodeId) (hb : b ∈ (cleanAt depth n w).children n) : n < b :=
    hr1.tame.lt_of_successor (mem_successors.2 (Or.inl hb))
  have hone (v : World α κ σ) (hv : Ready size effort v) (b : NodeId) (hb : b ∈ (cleanAt depth n w).children n) :=
    ihd size effort v b hv (hroom b (hyoung b hb))
  obtain ⟨e, k, h2⟩ := KillsFrom.foldl (fun w v d c hw hk => hw.kills hk) hone (cleanAt depth n w) hr1
  have hgen (b : NodeId) (hb : b ∈ w.generatedAt n) : b ∈ w.successors n := List.mem_append_right _ hb
  have hchild (b : NodeId) (hb : b ∈ (cleanAt depth n w).children n) : b ∈ w.successors n :=
    h1.torn.successor_of (mem_successors.2 (Or.inl hb))
  have hl2 := (h2.torn.isAlive n).2 ⟨hl1, h2.notMem_of_lt hr1.tame hyoung⟩
  have h3 := KillsFrom.bury (hr1.kills h2.toKills).tame hl2 (h1.successor_dead h2)
  refine ⟨_, _, ((h1.trans h2).trans h3).retold ?_ ?_ ?_⟩
  · intro m hm _
    rw [List.mem_singleton.1 hm]
    simp
  · intro m hm hlm
    refine ⟨n, by simp, ?_⟩
    rcases List.mem_append.1 hm with hm | hm
    · rcases List.mem_append.1 hm with hm | hm
      · exact Reach.step hl (hgen m hm) (Reach.refl hlm)
      · exact Reach.step hl (hchild m hm) (Reach.refl hlm)
    · rw [List.mem_singleton.1 hm]
      exact Reach.refl hl
  · intro s hs
    refine Or.inr ⟨n, by simp, h.tame.home n s ?_⟩
    simpa using hs

/-! ## Emptying a list -/

/-- a world in which a list was emptied leads nowhere new -/
theorem successors_takeGenerated {w : World α κ σ} {s : ShapeId} {a b : NodeId} :
    b ∈ (w.takeGenerated s).successors a ↔
      b ∈ w.children a ∨ ∃ t, w.shapeOn? a = some t ∧ t ≠ s ∧ b ∈ w.generatedBy t := by
  rw [mem_successors]
  refine or_congr Iff.rfl (exists_congr fun t => and_congr Iff.rfl ?_)
  rw [generatedBy_takeGenerated]
  by_cases ht : t = s <;> simp [ht]

theorem homeOf_takeGenerated (w : World α κ σ) (s t : ShapeId) : (w.takeGenerated s).homeOf t = w.homeOf t := by
  unfold takeGenerated homeOf
  rw [shape?_modifyShape]
  by_cases ht : t = s
  · cases w.shape? t <;> simp [ht]
  · simp [ht]

theorem Tame.takeGenerated {w : World α κ σ} (t : Tame w) (s : ShapeId) : Tame (w.takeGenerated s) where
  mem_children := t.mem_children
  children_nodup := t.children_nodup
  parent_alive := t.parent_alive
  home n r hr := (homeOf_takeGenerated w s r).trans (t.home n r hr)
  newer r n hn g hg := by
    rw [homeOf_takeGenerated] at hn
    rw [generatedBy_takeGenerated] at hg
    split_ifs at hg
    · exact absurd hg (by simp)
    · exact t.newer r n hn g hg
  registry_nodup := t.registry_nodup

/-- the emptied list pays for the calls made from it -/
theorem Ready.takeGenerated {size effort : Nat} {w : World α κ σ} (h : Ready size effort w) {s : ShapeId}
    (hs : w.generatedBy s ≠ []) : size + 3 ≤ effort ∧ Ready size (effort - (size + 3)) (w.takeGenerated s) := by
  have heff := effort_takeGenerated hs
  rw [h.size_eq] at heff
  have hw := h.effort_le
  exact ⟨by omega, h.tame.takeGenerated s, h.size_eq, by omega⟩

theorem reach_of_takeGenerated {w : World α κ σ} {s : ShapeId} {a b : NodeId}
    (h : Reach (w.takeGenerated s) a b) : Reach w a b := by
  induction h with
  | refl ha => exact Reach.refl ha
  | step ha hs _ ih =>
    refine Reach.step ha ?_ ih
    rcases successors_takeGenerated.1 hs with hc | ⟨t, ht, -, hg⟩
    · exact mem_successors.2 (Or.inl hc)
    · exact mem_successors.2 (Or.inr ⟨t, ht, hg⟩)

/-- the end of what was on a list, told from the world in which it was still on it -/
theorem KillsFrom.markCleared {w v : World α κ σ} (t : Tame w) {s : ShapeId} {d : List NodeId} {c : List ShapeId}
    (hs : ∀ m, w.shapeOn? m = some s → ∀ g ∈ w.generatedBy s, m < g)
    (h : KillsFrom (w.takeGenerated s) v (w.generatedBy s) [] d c) :
    KillsFrom w (v.markCleared s) (w.generatedBy s) [s] d (s :: c) where
  torn := Torn.takeGenerated_markCleared h.torn
  nodup := h.nodup
  alive := h.alive
  first := by
    intro pre m post heq b hb hl
    refine h.first pre m post heq b ?_ hl
    rcases mem_successors.1 hb with hc | ⟨r, hr, hg⟩
    · exact successors_takeGenerated.2 (Or.inl hc)
    · refine successors_takeGenerated.2 (Or.inr ⟨r, hr, ?_, hg⟩)
      -- a node that dies is reached from the list, so it is younger than the shape that has the list
      rintro rfl
      have hm : m ∈ d := by rw [heq]; simp
      exact h.notMem_of_lt (t.takeGenerated r) (hs m hr) hm
  spent := by
    intro r hr g hg hl
    by_cases hrs : r = s
    · exact h.hit g (hrs ▸ hg) hl
    · refine h.spent r ((List.mem_cons.1 hr).resolve_left hrs) g ?_ hl
      rw [generatedBy_takeGenerated, if_neg hrs]
      exact hg
  hit := h.hit
  reached := by
    intro m hm
    obtain ⟨r, hr, hrm⟩ := h.reached m hm
    exact ⟨r, hr, reach_of_takeGenerated hrm⟩
  owned := by
    intro r hr
    rcases List.mem_cons.1 hr with rfl | hr
    · simp
    · rcases h.owned r hr with hn | ⟨m, hm, hh⟩
      · simp at hn
      · exact Or.inr ⟨m, hm, homeOf_takeGenerated w s r ▸ hh⟩

/-- the step of the loop over a list -/
def cleanOne (depth : Nat) (s : ShapeId) (w : World α κ σ) (n : NodeId) : World α κ σ :=
  if w.isAlive n then
    let w := cleanAt depth n w
    match destroyWithin depth n w with
    | (w, none) => w
    | (w, some _) => w.warnCleanup s n
  else w

theorem cleanWithin_some {depth : Nat} {w : World α κ σ} {s : ShapeId} {gs : List NodeId}
    (h : (w.shape? s).bind (·.generated) = some gs) :
    cleanWithin (depth + 1) s w = (gs.foldl (cleanOne depth s) (w.takeGenerated s)).markCleared s := by
  rw [cleanWithin, h]
  rfl

theorem cleanWithin_none {depth : Nat} {w : World α κ σ} {s : ShapeId}
    (h : (w.shape? s).bind (·.generated) = none) : cleanWithin (depth + 1) s w = w := by
  rw [cleanWithin, h]

/-- a node on the list dies with all it leads to -/
theorem cleanOne_killsFrom {depth size effort : Nat} (ihd : DestroyKillsFrom α κ σ depth)
    (ihc : CleanKillsFrom α κ σ depth)
    {w : World α κ σ} (h : Ready size effort w) (hd : effort + (size + 3) ≤ depth) (s : ShapeId) (n : NodeId) :
    ∃ d c, KillsFrom w (cleanOne depth s w n) [n] [] d c := by
  unfold cleanOne
  by_cases hl : w.isAlive n = true
  swap
  · rw [if_neg hl]
    exact ⟨[], [], KillsFrom.refl w [] (by simpa using hl)⟩
  rw [if_pos hl]
  obtain ⟨d, c, h1⟩ := cleanAt_killsFrom ihc h (by omega) n
  have hgen (b : NodeId) (hb : b ∈ w.generatedAt n) : b ∈ w.successors n := List.mem_append_right _ hb
  have hroom : effort + (size + 3 - n) ≤ depth := (Nat.add_le_add_left (Nat.sub_le _ _) _).trans hd
  obtain ⟨e, k, h2⟩ := ihd size effort (cleanAt depth n w) n (h.kills h1.toKills) hroom
  have h3 : KillsFrom (cleanAt depth n w) (match destroyWithin depth n (cleanAt depth n w) with
      | (w, none) => w
      | (w, some _) => w.warnCleanup s n) [n] [] e k := by
    rcases hp : destroyWithin depth n (cleanAt depth n w) with ⟨v, fault⟩
    rw [hp] at h2
    cases fault with
    | none => exact h2
    | some x => exact { h2.toKills.warnCleanup s n with hit := h2.hit, reached := h2.reached, owned := h2.owned }
  refine ⟨_, _, (h1.trans h3).retold ?_ ?_ ?_⟩
  · intro m hm _
    rw [List.mem_singleton.1 hm]
    refine List.mem_append_right _ (h2.hit n (by simp) ((h1.torn.isAlive n).2 ⟨hl, ?_⟩))
    exact h1.notMem_of_lt h.tame fun r hr => h.tame.lt_of_successor (hgen r hr)
  · intro m hm hlm
    refine ⟨n, by simp, ?_⟩
    rcases List.mem_append.1 hm with hm | hm
    · exact Reach.step hl (hgen m hm) (Reach.refl hlm)
    · rw [List.mem_singleton.1 hm]
      exact Reach.refl hl
  · intro t ht
    refine Or.inr ⟨n, ?_, h.tame.home n t (by simpa using ht)⟩
    refine List.mem_append_right _ (h2.hit n (by simp) ((h1.torn.isAlive n).2 ⟨hl, ?_⟩))
    exact h1.notMem_of_lt h.tame fun r hr => h.tame.lt_of_successor (hgen r hr)

theorem clean_step {depth : Nat} (ihd : DestroyKillsFrom α κ σ depth) (ihc : CleanKillsFrom α κ σ depth) :
    CleanKillsFrom α κ σ (depth + 1) := by
  intro size effort w s h hd
  cases hg : (w.shape? s).bind (·.generated) with
  | none =>
    rw [cleanWithin_none hg]
    have hgs : w.generatedBy s = [] := by simp [generatedBy, hg]
    exact ⟨[], [], KillsFrom.refl w [s] (by simp [hgs]), hgs⟩
  | some gs =>
    obtain rfl : w.generatedBy s = gs := by rw [generatedBy, hg]; rfl
    rw [cleanWithin_some hg]
    suffices hl : ∃ d c, KillsFrom (w.takeGenerated s)
        ((w.generatedBy s).foldl (cleanOne depth s) (w.takeGenerated s)) (w.generatedBy s) [] d c by
      obtain ⟨d, c, hf⟩ := hl
      have hm := hf.markCleared h.tame fun m hm => h.tame.newer s m (h.tame.home m s hm)
      exact ⟨d, s :: c, hm, by rw [hm.torn.generatedBy, if_pos List.mem_cons_self]⟩
    by_cases hne : w.generatedBy s = []
    · rw [hne]
      exact ⟨[], [], KillsFrom.refl _ [] (by simp)⟩
    · obtain ⟨hle, hready⟩ := h.takeGenerated hne
      exact KillsFrom.foldl (fun v u d c hv hk => hv.kills hk)
        (fun v hv n _ => cleanOne_killsFrom ihd ihc hv (by omega) s n) _ hready

/-! ## The main results -/

theorem killsFrom_within (depth : Nat) : DestroyKillsFrom α κ σ depth ∧ CleanKillsFrom α κ σ depth := by
  induction depth with
  | zero =>
    refine ⟨fun size effort w n h hd => ?_, fun size effort w s _ hd => by omega⟩
    -- a node too young to exist is not alive
    have hn : ¬ w.isAlive n = true := by
      intro hl
      have hle : n ≤ size := h.size_eq ▸ le_size_of_isAlive hl
      have hpos : size + 3 - size ≤ size + 3 - n := Nat.sub_le_sub_left hle _
      omega
    exact ⟨[], [], KillsFrom.refl w [] (by simpa using hn)⟩
  | succ depth ih => exact ⟨destroy_step ih.1 ih.2, clean_step ih.1 ih.2⟩

theorem teardownBound_eq (w : World α κ σ) : w.teardownBound = w.effort + (w.nodes.size + 3) := by
  rw [teardownBound, effort, Nat.succ_mul]

/-- **Destruction.** `destroy` kills what is reached from the node, if it is alive, and nothing else. -/
theorem destroy_killsFrom {w : World α κ σ} (t : Tame w) (n : NodeId) :
    ∃ d c, KillsFrom w (destroyWithin w.teardownBound n w).1 [n] [] d c := by
  refine (killsFrom_within w.teardownBound).1 w.nodes.size w.effort w n ⟨t, rfl, le_rfl⟩ ?_
  rw [teardownBound_eq]
  exact Nat.add_le_add_left (Nat.sub_le _ _) _

/-- **Deletion.** `deleteGenerated` kills what is reached from the shape's list, and nothing else; the list is empty
then. -/
theorem clean_killsFrom {w : World α κ σ} (t : Tame w) (s : ShapeId) :
    ∃ d c, KillsFrom w (cleanWithin w.teardownBound s w) (w.generatedBy s) [s] d c ∧
      (cleanWithin w.teardownBound s w).generatedBy s = [] := by
  refine (killsFrom_within w.teardownBound).2 w.nodes.size w.effort w s ⟨t, rfl, le_rfl⟩ ?_
  rw [teardownBound_eq]
  omega

end SceneGrammar.World
