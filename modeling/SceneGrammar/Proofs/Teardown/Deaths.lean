/-
How often a node dies.

A node stays alive until its content and its children are gone, and only the start of a destruction asks whether it still
lives. If what it leads to leads back, an inner call has buried it by the time the outer one goes on, and the outer call
tells of it and counts it once more (`destroyed_twice`).

- `Reached.destroy_circles`: which nodes die in the destruction of a node, who is told of each and how often, and what
  the books say afterwards. A node dies more than once only if it lies on a circle, and the node that is destroyed does
  so whenever it lies on one.
-/
import SceneGrammar.Proofs.Rooted

namespace SceneGrammar

namespace World

variable {α κ σ : Type} {w v : World α κ σ}

theorem Moment.callTo_isAlive (m : Moment α κ σ) (i : Nat) (n : NodeId) :
    (m.callTo i).found.isAlive n = m.found.isAlive n := by
  cases i with
  | zero => rfl
  | succ i =>
    have hnodes : (m.found.announce m.node).nodes = m.found.nodes := by rw [announce_eq]
    rw [callTo, isAlive, node?_congr hnodes, isAlive]

/-- the calls of one listener in a destruction are those at the moments of its record -/
theorem LivingForest.calls_to (h : LivingForest w) (n : NodeId) {i : Nat} (hi : i ≤ w.listeners.length) :
    (w.callsOfDestroy n).filter (·.listener = i) = (destroyOverheard w.teardownBound n w).2.map (·.callTo i) := by
  obtain ⟨⟨c, hr⟩, -⟩ := h.destroyed n
  rw [callsOfDestroy, List.filter_flatMap, List.map_eq_flatMap]
  refine List.flatMap_congr fun m hm => m.calls_to ?_
  obtain ⟨pre, post, heq⟩ := List.append_of_mem hm
  rw [(hr.heard.found pre m post heq).listeners]
  exact hi

/-- a listener that is called for a node finds it alive the first time, and only then -/
theorem LivingForest.call_alive (h : LivingForest w) (n : NodeId) {i : Nat} (hi : i ≤ w.listeners.length)
    {pre post : List (Call α κ σ)} {c : Call α κ σ}
    (hc : (w.callsOfDestroy n).filter (·.listener = i) = pre ++ c :: post) :
    c.found.isAlive c.node = true ↔ c.node ∉ pre.map (·.node) := by
  obtain ⟨⟨k, hr⟩, -⟩ := h.destroyed n
  rw [h.calls_to n hi] at hc
  obtain ⟨before, rest, hms, rfl, hrest⟩ := List.map_eq_append_iff.1 hc
  obtain ⟨m, after, rfl, rfl, -⟩ := List.map_eq_cons_iff.1 hrest
  have hends : (before.map (·.callTo i)).map (·.node) = endsOf before := by
    rw [List.map_map]
    exact List.map_congr_left fun m _ => m.callTo_node i
  have hmem : m.node ∈ endsOf (destroyOverheard w.teardownBound n w).2 := by
    rw [hms]
    simp [endsOf]
  rw [m.callTo_node, m.callTo_isAlive, hends, (hr.heard.found before m after hms).isAlive, and_iff_right (hr.alive _ hmem)]
  rfl

/-- a node on a circle is buried in its own destruction before that is done with it -/
theorem LivingForest.dies_again (h : LivingForest w) {n : NodeId} (hn : w.Circular n) :
    1 < (endsOf (destroyOverheard w.teardownBound n w).2).count n := by
  obtain ⟨b, hb, hbn⟩ := hn
  have hl : w.isAlive n = true := hbn.alive_right
  obtain ⟨depth, hdepth⟩ : ∃ depth, w.teardownBound = depth + 1 := ⟨w.effort + (w.nodes.size + 2), teardownBound_eq w⟩
  have hroom := teardownBound_room w n
  rw [hdepth] at hroom
  obtain ⟨u, faults, ms, roots, c, heq, -, htornFrom, -, hgone, -⟩ := destroy_parts (tornFrom_within depth).1
    (tornFrom_within depth).2 h.fit (le_size_of_isAlive hl) hroom hl
  have hback : n ∈ endsOf ms := htornFrom.closed_reach (hgone b hb hbn.alive_left) hbn
  rw [hdepth, heq, endsOf_concat, List.count_append, List.count_singleton_self]
  exact Nat.succ_lt_succ (List.count_pos_iff.2 hback)

/-- as many nodes fewer are registered as have died -/
theorem LivingForest.nodeCount_torn (h : LivingForest w) {d : List NodeId} {c : List ShapeId} (t : Torn w v d c)
    (hl : ∀ m ∈ d, w.isAlive m = true) : v.nodeCount + d.dedup.length = w.nodeCount := by
  have hdead : (w.registry.filter (· ∈ d)).Perm d.dedup := by
    refine (List.perm_ext_iff_of_nodup (h.registry_nodup.filter _) (List.nodup_dedup d)).2 fun m => ?_
    rw [List.mem_filter, List.mem_dedup, h.registered, decide_eq_true_eq]
    exact ⟨And.right, fun hm => ⟨hl m hm, hm⟩⟩
  have hsplit : w.registry.length = (w.registry.filter (· ∈ d)).length + (w.registry.filter (· ∉ d)).length := by
    simpa using List.length_eq_length_filter_add (l := w.registry) (fun m => decide (m ∈ d))
  rw [nodeCount, nodeCount, t.registry, ← hdead.length_eq, hsplit, Nat.add_comm]

end World

open World

section

variable {α κ σ : Type} [Scalar α] [SymbolKind κ]

/-- **Deaths.** In any world where nothing was hung anew, in the midst of rules or not, and whatever is on the lists of
shapes, the destruction of a node ends, whatever depth of calls beyond the bound it is given. It kills what is reached
from the node. Each listener is told of these nodes and of no other, all listeners of the same nodes in the same order;
it finds a node alive when it is first told of it, and never again. As many nodes fewer are registered as have died, and
as many more are counted as destroyed as were told of. So the books that agreed before agree afterwards just if each
was told of once. A node that is told of twice lies on a circle, and the destroyed node is if it lies on one. -/
theorem World.Reached.destroy_circles {w : World α κ σ} (h : Reached World.rooted w) (n : NodeId) :
    (∀ depth, w.teardownBound ≤ depth → destroyWithin depth n w = destroyWithin w.teardownBound n w) ∧
    ∃ told : List NodeId,
      (∀ m, m ∈ told ↔ Reach w n m) ∧
      (∀ m, m ∈ told ↔ w.isAlive m = true ∧ ¬ ((destroy n).after w).isAlive m = true) ∧
      (∀ i ≤ w.listeners.length, ((w.callsOfDestroy n).filter (·.listener = i)).map (·.node) = told ∧
        ∀ pre c post, (w.callsOfDestroy n).filter (·.listener = i) = pre ++ c :: post →
          (c.found.isAlive c.node = true ↔ c.node ∉ pre.map (·.node))) ∧
      ((destroy n).after w).created = w.created ∧
      ((destroy n).after w).destroyed = w.destroyed + told.length ∧
      ((destroy n).after w).nodeCount + told.dedup.length = w.nodeCount ∧
      (w.created = w.destroyed + w.nodeCount →
        (((destroy n).after w).created = ((destroy n).after w).destroyed + ((destroy n).after w).nodeCount ↔
          told.Nodup)) ∧
      (∀ m, 1 < told.count m → w.Circular m) ∧ (w.Circular n → 1 < told.count n) := by
  have hg := h.livingForest
  obtain ⟨⟨c, hr⟩, -⟩ := hg.destroyed n
  have hcount := hg.nodeCount_torn hr.torn hr.alive
  refine ⟨fun depth hd => ?_, endsOf (destroyOverheard w.teardownBound n w).2, fun m => ?_, fun m => ?_, fun i hi => ⟨?_, ?_⟩,
    hr.torn.created, hr.torn.destroyed, hcount, fun hbooks => ?_, hr.again, fun hn => hg.dies_again hn⟩
  · rw [← (overheard_within depth).1, hg.destroy_steady n hd, (overheard_within w.teardownBound).1]
  · rw [hr.mem_iff]
    simp
  · rw [hr.torn.isAlive]
    exact ⟨fun hm => ⟨hr.alive m hm, fun hv => hv.2 hm⟩, fun ⟨hm, hv⟩ => not_not.1 fun hd => hv ⟨hm, hd⟩⟩
  · rw [hg.calls_to n hi, List.map_map]
    exact List.map_congr_left fun m _ => m.callTo_node i
  · exact fun pre c post hc => hg.call_alive n hi hc
  · rw [hr.torn.created, hr.torn.destroyed, hbooks]
    have hle := List.Sublist.length_le (List.dedup_sublist (endsOf (destroyOverheard w.teardownBound n w).2))
    rw [← List.dedup_eq_self, ← (List.dedup_sublist _).length_eq]
    omega

end

/-- the gardener of the lantern has the root that made it on its list, too -/
def lanternRound : Prog Float (City.Kind Float) Unit Unit :=
  lanternAbroad.bind fun _ => .perform (.track 2 1) fun _ => .done ()

/-- the first root leads to its gardener and back; the lantern, its lamp and the second root lie on no circle -/
theorem destroy_circles_lantern :
    let w := (lanternRound.run idle).after (.fresh ⟨fun _ => 0, 0⟩ ())
    (w.callsOfDestroy 1).map (·.node) = [5, 4, 3, 1, 1] ∧ ∃ told : List NodeId, (∀ m, m ∈ told ↔ Reach w 1 m) ∧
      (∀ m, 1 < told.count m → w.Circular m) ∧ 1 < told.count 1 := by
  intro w
  have heeds : lanternRound.HeedsBy World.rooted idle (.fresh ⟨fun _ => 0, 0⟩ ()) :=
    Prog.heedsBy_perform (by decide +kernel) rfl <| Prog.heedsBy_perform (by decide +kernel) rfl <|
      Prog.heedsBy_perform (by decide +kernel) rfl <| Prog.heedsBy_perform (by decide +kernel) rfl <|
        Prog.heedsBy_perform (by decide +kernel) rfl rfl
  have h := (Reached.start (pristine_fresh _ _)).run splits_rooted heeds
  have hl (m : NodeId) (hm : m ∈ [1, 3]) : w.isAlive m = true := by
    revert m
    decide +kernel
  have hcircle : w.Circular 1 :=
    ⟨3, by decide +kernel, .step (hl 3 (by simp)) (show 1 ∈ w.successors 3 by decide +kernel) (.refl (hl 1 (by simp)))⟩
  obtain ⟨-, told, hreach, -, -, -, -, -, -, hagain, htwice⟩ := h.destroy_circles 1
  exact ⟨by decide +kernel, told, hreach, hagain, htwice hcircle⟩

/-- a root whose own node is on its list -/
def ouroboros : Prog Float (City.Kind Float) Unit Unit :=
  .perform (.createRoot (.of .roof) "snake" none (.displaced .origin) none) fun snake =>
    .perform (.track snake 1) fun _ => .done ()

/-- a node that owns itself is told of twice, dead the second time, and counted twice -/
theorem destroyed_twice :
    let w := (ouroboros.run idle).after (.fresh ⟨fun _ => 0, 0⟩ ())
    Reached World.rooted w ∧ w.isAlive 1 = true ∧
      (w.callsOfDestroy 1).map (fun c => (c.listener, c.node, c.found.isAlive c.node)) = [(0, 1, true), (0, 1, false)] ∧
      w.created = w.destroyed + w.nodeCount ∧
      ¬ ((destroy 1).after w).created = ((destroy 1).after w).destroyed + ((destroy 1).after w).nodeCount := by
  have heeds : ouroboros.HeedsBy World.rooted idle (.fresh ⟨fun _ => 0, 0⟩ ()) :=
    Prog.heedsBy_perform (by decide +kernel) rfl <| Prog.heedsBy_perform (by decide +kernel) rfl rfl
  exact ⟨(Reached.start (pristine_fresh _ _)).run splits_rooted heeds, by decide +kernel, by decide +kernel,
    by decide +kernel, by decide +kernel⟩

end SceneGrammar
