/-
Scenes in which nothing is hung anew.

A node stays where it was hung until it ends (`rooted`); all else is allowed that names what is there: any node may come
on any list, dead shapes may go on creating, rules may fail. Then the scene is a forest at every moment, each node older
than what hangs below it, and the registry holds what lives (`LivingForest`, `Reached.livingForest`), though nodes may
own one another in circles.

- `LivingForest.destroyed`, `LivingForest.destroyedAll`: what is told of in a teardown that starts there, and whose
  fault is reported.
-/
import SceneGrammar.Proofs.Housed
import SceneGrammar.Proofs.Teardown.Circles

namespace SceneGrammar.World

variable {α κ σ : Type} {w v : World α κ σ}

/-- an operation that names what is there, or was, and hangs nothing anew -/
def rooted (w : World α κ σ) (o : Op α κ σ) : Bool :=
  w.names o && match o with
    | .reparent .. => false
    | _ => true

/-- a forest of living nodes, and a registry of all that live -/
structure LivingForest (w : World α κ σ) : Prop extends Linked w where
  registered : ∀ n, n ∈ w.registry ↔ w.isAlive n = true
  registry_nodup : w.registry.Nodup

/-! ## What keeps it -/

theorem Sound.livingForest (h : Sound w) : LivingForest w := ⟨h.toTame.linked, h.registered, h.registry_nodup⟩

theorem LivingForest.congr (h : LivingForest w) (hn : v.nodes = w.nodes) (hr : v.registry = w.registry) :
    LivingForest v where
  mem_children n p := by
    rw [children, parentOf, node?_congr hn, node?_congr hn]
    exact h.mem_children n p
  children_nodup p := by
    rw [children, node?_congr hn]
    exact h.children_nodup p
  parent_alive n p hp := by
    rw [parentOf, node?_congr hn] at hp
    rw [isAlive, isAlive, node?_congr hn, node?_congr hn]
    exact h.parent_alive n p hp
  registered n := by
    rw [hr, isAlive, node?_congr hn]
    exact h.registered n
  registry_nodup := hr ▸ h.registry_nodup

theorem LivingForest.adds (h : LivingForest w) {x : Node α} (a : Adds w v x) : LivingForest v where
  toLinked := a.linked h.toLinked
  registered n := by rw [a.registry, List.mem_cons, a.isAlive, h.registered]
  registry_nodup := by
    rw [a.registry, List.nodup_cons, h.registered]
    exact ⟨fun hl => nextId_ne (le_size_of_isAlive hl) rfl, h.registry_nodup⟩

theorem LivingForest.torn (h : LivingForest w) {d : List NodeId} {c : List ShapeId} (t : Torn w v d c) (hv : Linked v) :
    LivingForest v where
  toLinked := hv
  registered n := by
    rw [t.registry, List.mem_filter, h.registered, t.isAlive]
    simp
  registry_nodup := by
    rw [t.registry]
    exact h.registry_nodup.filter _

theorem LivingForest.tornFrom (h : LivingForest w) {roots : List NodeId} {ms : List (Moment α κ σ)} {c : List ShapeId}
    (k : TornFrom w v roots ms c) : LivingForest v := h.torn k.torn (k.linked h.toLinked)

theorem LivingForest.seat_take (h : LivingForest w) (kind : κ) (name : String) {parent : Option NodeId} (pose : Pose α)
    (rootKey : Option NodeId) (hp : ∀ p, parent = some p → w.isAlive p = true) (creator : ShapeId) (first : NodeId)
    (count : Nat) : LivingForest ((w.seat kind name parent pose rootKey).take creator first count) :=
  (h.adds (adds_seat w kind name parent pose rootKey hp)).congr (sameScene_take _ creator first count).nodes
    (sameScene_take _ creator first count).registry

theorem Step.livingForest (h : LivingForest w) (s : Step w v) : LivingForest v := by
  cases s with
  | aside e _ _ _ => exact h.congr e.nodes e.registry
  | agenda _ _ => exact h.congr rfl rfl
  | node name kind parent pose template hp => exact h.adds (adds_addNode w name kind parent pose template hp)
  | root kind name parent pose hp => exact h.adds (adds_seat w kind name parent pose none hp)
  | symbol kind name parent pose _ _ hp => exact h.seat_take kind name pose _ hp _ _ _
  | take _ _ _ _ _ _ _ => exact h.congr (sameScene_take w _ _ _).nodes (sameScene_take w _ _ _).registry
  | track _ _ => exact h.congr rfl rfl
  | kills k =>
    refine h.torn k.torn (k.torn.linked h.toLinked fun p hp n hn => k.closed hp (mem_successors.2 (Or.inl hn)) ?_)
    exact (h.parent_alive n p ((h.mem_children n p).1 hn)).1

theorem Steps.livingForest (h : LivingForest w) (s : Steps w v) : LivingForest v := by
  induction s with
  | refl => exact h
  | tail _ hs ih => exact hs.livingForest ih

/-! ## Teardowns that start there -/

section

variable {roots : List NodeId} {ms : List (Moment α κ σ)} {c : List ShapeId} {e : Fault α}

theorem LivingForest.fit (h : LivingForest w) : Fit w.nodes.size w.effort w := ⟨h.toLinked, h.registry_nodup, rfl, le_rfl⟩

theorem teardownBound_room (w : World α κ σ) (n : NodeId) :
    w.effort + (w.nodes.size + 3 - n) ≤ w.teardownBound := by
  rw [teardownBound_eq]
  exact Nat.add_le_add_left (Nat.sub_le _ _) _

/-- a destruction tells of what is reached from the node, and reports objections alone -/
theorem LivingForest.destroyed (h : LivingForest w) (n : NodeId) :
    (∃ c, TornFrom w ((destroy n).after w) [n] (destroyOverheard w.teardownBound n w).2 c) ∧
      ∀ e ∈ (destroyWithin w.teardownBound n w).2, Objected (destroyOverheard w.teardownBound n w).2 e := by
  rw [after_destroy, ← (overheard_within w.teardownBound).1]
  by_cases hn : n ≤ w.nodes.size
  · exact (tornFrom_within w.teardownBound).1 _ _ w n h.fit hn (teardownBound_room w n)
  · have hl : ¬ w.isAlive n = true := fun hl => hn (le_size_of_isAlive hl)
    obtain ⟨depth, hdepth⟩ : ∃ depth, w.teardownBound = depth + 1 := ⟨w.effort + (w.nodes.size + 2), teardownBound_eq w⟩
    rw [hdepth, destroyOverheard, if_neg hl]
    exact ⟨⟨[], .refl w (by simpa using hl)⟩, by simp⟩

/-- more depth than the bound changes nothing about a destruction, nor about what is told of it -/
theorem LivingForest.destroy_steady (h : LivingForest w) (n : NodeId) {depth : Nat} (hd : w.teardownBound ≤ depth) :
    destroyOverheard depth n w = destroyOverheard w.teardownBound n w := by
  by_cases hl : w.isAlive n = true
  · exact (steady_within w.teardownBound).1 _ _ depth w n h.fit (le_size_of_isAlive hl) (teardownBound_room w n)
      ((teardownBound_room w n).trans hd)
  · obtain ⟨bound, hbound⟩ : ∃ bound, w.teardownBound = bound + 1 := ⟨w.effort + (w.nodes.size + 2), teardownBound_eq w⟩
    obtain ⟨depth, rfl⟩ : ∃ d, depth = d + 1 := ⟨depth - 1, by omega⟩
    rw [hbound, destroyOverheard, destroyOverheard, if_neg hl, if_neg hl]

theorem destroyWithin_of_error {n : NodeId} (hr : destroy n w = .error e v) :
    destroyWithin w.teardownBound n w = (v, some e) := by
  unfold destroy at hr
  rcases hd : destroyWithin w.teardownBound n w with ⟨u, _ | fault⟩ <;> rw [hd] at hr <;> cases hr
  rfl

/-- nodes destroyed in turn: all of them, or those up to the first whose destruction reports a fault -/
theorem LivingForest.destroyedAll (h : LivingForest w) (ns : List NodeId) :
    (∃ ms c, destroyAll ns w = .ok () ((destroyAll ns).after w) ∧ TornFrom w ((destroyAll ns).after w) ns ms c) ∨
      ∃ pre r post u e ms c, ns = pre ++ r :: post ∧ destroyAll pre w = .ok () u ∧
        destroy r u = .error e ((destroyAll ns).after w) ∧ destroyAll ns w = .error e ((destroyAll ns).after w) ∧
        Objected ms e ∧ TornFrom w ((destroyAll ns).after w) (pre ++ [r]) ms c := by
  induction ns generalizing w with
  | nil => exact .inl ⟨[], [], rfl, .refl w (by simp)⟩
  | cons n ns ih =>
    obtain ⟨⟨c, hn⟩, hfault⟩ := h.destroyed n
    cases hd : destroy n w with
    | error e v =>
      have hr : destroyAll (n :: ns) w = .error e v := by simp only [destroyAll, hd]
      rw [Act.after_error hd] at hn
      rw [Act.after_error hr]
      rw [destroyWithin_of_error hd] at hfault
      exact .inr ⟨[], n, ns, w, e, _, c, rfl, rfl, hd, hr, hfault e rfl, hn⟩
    | ok _ v =>
      have hr : destroyAll (n :: ns) w = destroyAll ns v := by simp only [destroyAll, hd]
      rw [Act.after_ok hd] at hn
      rw [Act.after_congr hr, hr]
      rcases ih (h.tornFrom hn) with ⟨ns', k, hok, hrest⟩ | ⟨pre, r, post, u, e, ns', k, rfl, hpre, hlast, herror, ho,
        hrest⟩
      · exact .inl ⟨_, _, hok, hn.trans hrest⟩
      · refine .inr ⟨n :: pre, r, post, u, e, _, _, rfl, ?_, hlast, herror, ho.append_right _, hn.trans hrest⟩
        simp only [destroyAll, hd]
        exact hpre

end

/-! ## Every move keeps it -/

theorem LivingForest.deleted [SymbolKind κ] (h : LivingForest w) (s : ShapeId) :
    LivingForest ((deleteGenerated s).after w) := by
  rcases deleteGenerated_after w s with hs | hs <;> rw [hs]
  · exact h
  · have hroom : w.effort + 1 ≤ w.teardownBound := by
      rw [teardownBound_eq]
      omega
    obtain ⟨c, hc⟩ := (tornFrom_within w.teardownBound).2 _ _ w s h.fit hroom
    rw [(overheard_within w.teardownBound).2] at hc
    exact h.tornFrom hc

theorem LivingForest.all_destroyed (h : LivingForest w) (ns : List NodeId) : LivingForest ((destroyAll ns).after w) := by
  rcases h.destroyedAll ns with ⟨ms, c, -, hr⟩ | ⟨_, _, _, _, _, ms, c, -, -, -, -, -, hr⟩ <;> exact h.tornFrom hr

theorem LivingForest.cleared (h : LivingForest w) : LivingForest (clear.after w) := by
  have hw : LivingForest (w.rebook w.agenda.clear) := h.congr rfl rfl
  have hscene := hw.all_destroyed (w.rebook w.agenda.clear).roots
  rw [show clear.after w = sweep.after (w.rebook w.agenda.clear) from rfl]
  unfold Act.after sweep
  cases hr : clearScene (w.rebook w.agenda.clear) with
  | error e v => exact Act.after_error hr ▸ hscene
  | ok _ v => exact (Act.after_ok hr ▸ hscene).congr rfl rfl

theorem LivingForest.placed [SymbolKind κ] (h : LivingForest w) (hw : Housed w) {parent : Option NodeId}
    (hk : w.knows parent = true) (creator : ShapeId) (offer : KindOffer κ) (name : String) (pose : Pose α) :
    LivingForest ((placeSymbol creator offer name parent pose).after w) := by
  rcases placeSymbol_cases creator offer name parent pose w with ⟨e, hr⟩ | ⟨own, key, kind, ho, -, -, hp, hr⟩
  · rw [Act.after_error hr]
    exact h
  · rw [Act.after_ok hr]
    have hknown := knows_getD ((hw.home_iff creator own).1 ho) hk
    exact h.seat_take kind name pose _ (mem_alive_of_parentFault? hp hknown) _ _ _

section

variable [Scalar α] [SymbolKind κ]

theorem LivingForest.spawned (h : LivingForest w) (hw : Housed w) {parent : Option NodeId} (hk : w.knows parent = true)
    (creator : ShapeId) (template : TemplateRef α) (pose : Pose α) :
    LivingForest ((spawn creator template parent pose).after w) := by
  rcases spawn_cases creator template parent pose w with ⟨e, hr⟩ | ⟨own, t, ho, -, hp, hr⟩
  · rw [Act.after_error hr]
    exact h
  · rw [Act.after_ok hr]
    have hknown := knows_getD ((hw.home_iff creator own).1 ho) hk
    have hplant := planted_plant t w (some (parent.getD own)) pose (mem_alive_of_parentFault? hp hknown)
    exact (hplant.steps.livingForest h).congr rfl rfl

/-- what an operation does to the scene, if it runs no rules -/
theorem LivingForest.performs (h : LivingForest w) (hw : Housed w) {o : Op α κ σ} (ho : o.isPlain = true)
    (hp : w.rooted o = true) : LivingForest ((does o).after w) := by
  cases o with
  | createSymbol | expand | generate | advance => cases ho
  | reparent | bind => simp [rooted, names] at hp
  | createNode name parent pose =>
    exact (createNode_steps (by simpa [rooted, names] using hp) name pose).livingForest h
  | instantiate t parent pose =>
    exact (instantiate_steps (by simpa [rooted, names] using hp) t pose).livingForest h
  | createRoot offer name parent pose source =>
    exact (createRoot_steps (by simpa [rooted, names] using hp) offer name pose source).livingForest h
  | spawn creator template parent pose => exact h.spawned hw (by simpa [rooted, names] using hp) creator template pose
  | destroy n =>
    obtain ⟨⟨c, hc⟩, -⟩ := h.destroyed n
    exact h.tornFrom hc
  | clearScene => exact h.all_destroyed w.roots
  | clear => exact h.cleared
  | deleteGenerated s => exact h.deleted s
  | reseed i seed => exact (reseed_steps w i seed).livingForest h
  | randomInt s low high => exact (randomInt_steps w s low high).livingForest h
  | randomFraction s => exact (randomFraction_steps w s).livingForest h
  | schedule s delay =>
    rcases schedule_cases w s delay with hs | ⟨n, -, hs⟩
    · exact hs.symm ▸ h
    · exact hs.symm ▸ h.congr rfl rfl
  | _ => exact h.congr rfl rfl

omit [Scalar α] [SymbolKind κ] in
theorem asksNames_rooted : AsksNames (World.rooted : World α κ σ → Op α κ σ → Bool) := by
  intro w o ho
  simp only [rooted, Bool.and_eq_true] at ho
  exact ho.1

omit [Scalar α] [SymbolKind κ] in
theorem splits_rooted : Splits (World.rooted : World α κ σ → Op α κ σ → Bool) :=
  ⟨fun _ _ _ _ => rfl, fun _ _ _ _ _ _ => rfl, fun _ _ _ _ _ => rfl⟩

theorem LivingForest.move (h : LivingForest w) (hw : Housed w) (m : Move World.rooted w v) : LivingForest v := by
  cases m with
  | plain o ho hp => exact h.performs hw ho hp
  | place creator offer name parent pose hp =>
    exact h.placed hw (by simpa [rooted, names] using hp) creator offer name pose
  | begins s => exact (markExpanded_steps w s).livingForest h
  | _ => exact h.congr rfl rfl

/-- **Living forests.** Where nothing is hung anew, the scene is a forest, in the midst of rules and after failures,
too. -/
theorem Reached.livingForest (h : Reached World.rooted w) : LivingForest w :=
  (h.invariant (J := fun w => Housed w ∧ LivingForest w) (fun _ hw => ⟨hw.housed, hw.sound.livingForest⟩)
    fun _ _ hw m => ⟨m.housed asksNames_rooted hw.1, hw.2.move hw.1 m⟩).2

end

end SceneGrammar.World
