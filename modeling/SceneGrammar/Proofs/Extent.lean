/-
What a tree is, for a snapshot and for a teardown.

A snapshot walks with a stack over a world that stands still. A teardown is a mutual recursion over a world that it
takes apart on the way: lists are emptied and nodes unhung while others still lead to them. Both end up with the nodes
that are reached from the root through living ones.

`reachFrom_spec` proves it of the walk, with the invariant `Frontier`: what a node seen leads to is seen or waits on the
stack. `KillsFrom` has it of the teardown. `Reachable.snapshot_eq_teardown` puts the two together.
-/
import SceneGrammar.Proofs.Growth.Snapshot
import SceneGrammar.Proofs.Ownership

namespace SceneGrammar

variable {α κ σ : Type}

namespace World

variable {w : World α κ σ}

/-! ## The walk -/

theorem Reach.alive_right {n m : NodeId} (h : Reach w n m) : w.isAlive m = true := by
  induction h with
  | refl hl => exact hl
  | step _ _ _ ih => exact ih

/-- what is reached from a living node is the node itself, or is reached from what it leads to -/
theorem reach_iff {n m : NodeId} :
    Reach w n m ↔ w.isAlive n = true ∧ (m = n ∨ ∃ k ∈ w.successors n, Reach w k m) := by
  constructor
  · intro h
    cases h with
    | refl hl => exact ⟨hl, Or.inl rfl⟩
    | step hl hs hr => exact ⟨hl, Or.inr ⟨_, hs, hr⟩⟩
  · rintro ⟨hl, rfl | ⟨k, hk, hr⟩⟩
    · exact .refl hl
    · exact .step hl hk hr

/-- a walk on its way: nothing was seen twice or dead, and what a node seen leads to is seen or waits on the stack -/
structure Frontier (w : World α κ σ) (stack seen : List NodeId) : Prop where
  nodup : seen.Nodup
  alive : ∀ m ∈ seen, w.isAlive m = true
  waits : ∀ a ∈ seen, ∀ b ∈ w.successors a, w.isAlive b = true → b ∈ seen ∨ b ∈ stack

theorem Frontier.start (n : NodeId) : Frontier w [n] [] := ⟨List.nodup_nil, by simp, by simp⟩

/-- a node that was seen before, or is dead, can be left out -/
theorem Frontier.skip {n : NodeId} {stack seen : List NodeId} (f : Frontier w (n :: stack) seen)
    (h : n ∈ seen ∨ ¬ w.isAlive n = true) : Frontier w stack seen where
  nodup := f.nodup
  alive := f.alive
  waits := by
    intro a ha b hb hl
    rcases f.waits a ha b hb hl with hs | hs
    · exact Or.inl hs
    rcases List.mem_cons.1 hs with rfl | hs
    · exact Or.inl (h.resolve_right (not_not_intro hl))
    · exact Or.inr hs

theorem Frontier.visit {n : NodeId} {stack seen : List NodeId} (f : Frontier w (n :: stack) seen) (hn : n ∉ seen)
    (hl : w.isAlive n = true) : Frontier w (w.successors n ++ stack) (n :: seen) where
  nodup := List.nodup_cons.2 ⟨hn, f.nodup⟩
  alive := List.forall_mem_cons.2 ⟨hl, f.alive⟩
  waits := by
    intro a ha b hb hlb
    rcases List.mem_cons.1 ha with rfl | ha
    · exact Or.inr (List.mem_append_left _ hb)
    rcases f.waits a ha b hb hlb with hs | hs
    · exact Or.inl (List.mem_cons_of_mem _ hs)
    rcases List.mem_cons.1 hs with rfl | hs
    · exact Or.inl List.mem_cons_self
    · exact Or.inr (List.mem_append_right _ hs)

/-- what is reached from a node seen is seen, or reached from the stack -/
theorem Frontier.covers {stack seen : List NodeId} (f : Frontier w stack seen) {n m : NodeId} (hn : n ∈ seen)
    (h : Reach w n m) : m ∈ seen ∨ ∃ k ∈ stack, Reach w k m := by
  induction h with
  | refl _ => exact Or.inl hn
  | step _ hs hr ih =>
    rcases f.waits _ hn _ hs hr.alive_left with hb | hb
    · exact ih hb
    · exact Or.inr ⟨_, hb, hr⟩

/-- a node of the stack that can be left out adds nothing to what is reached -/
theorem Frontier.covers_skip {n : NodeId} {stack seen : List NodeId} (f : Frontier w (n :: stack) seen)
    (h : n ∈ seen ∨ ¬ w.isAlive n = true) (m : NodeId) :
    (m ∈ seen ∨ ∃ k ∈ stack, Reach w k m) ↔ m ∈ seen ∨ ∃ k ∈ n :: stack, Reach w k m := by
  constructor
  · rintro (hm | ⟨k, hk, hr⟩)
    · exact Or.inl hm
    · exact Or.inr ⟨k, List.mem_cons_of_mem n hk, hr⟩
  · rintro (hm | ⟨k, hk, hr⟩)
    · exact Or.inl hm
    rcases List.mem_cons.1 hk with rfl | hk
    · exact (f.skip h).covers (h.resolve_right (not_not_intro hr.alive_left)) hr
    · exact Or.inr ⟨k, hk, hr⟩

/-- visiting a living node changes nothing about what is seen or reached -/
theorem covers_visit {n : NodeId} (hl : w.isAlive n = true) (stack seen : List NodeId) (m : NodeId) :
    (m ∈ n :: seen ∨ ∃ k ∈ w.successors n ++ stack, Reach w k m) ↔ m ∈ seen ∨ ∃ k ∈ n :: stack, Reach w k m := by
  simp only [List.mem_cons, List.mem_append, or_and_right, exists_or, exists_eq_left]
  rw [@reach_iff _ _ _ w n m, and_iff_right hl, or_assoc, or_assoc, or_left_comm]

/-- **The walk.** With steps for all that is before it, a walk collects what it has seen and what is reached from its
stack, each node once. -/
theorem reachFrom_spec (steps : Nat) : ∀ stack seen : List NodeId, w.ahead stack seen ≤ steps → Frontier w stack seen →
    (w.reachFrom steps stack seen).Nodup ∧
      ∀ m, m ∈ w.reachFrom steps stack seen ↔ m ∈ seen ∨ ∃ k ∈ stack, Reach w k m := by
  have hdone {seen : List NodeId} (f : Frontier w [] seen) :
      seen.reverse.Nodup ∧ ∀ m, m ∈ seen.reverse ↔ m ∈ seen ∨ ∃ k ∈ ([] : List NodeId), Reach w k m :=
    ⟨List.nodup_reverse.2 f.nodup, fun m => by simp⟩
  induction steps with
  | zero =>
    intro stack seen hsteps f
    cases stack with
    | nil => exact hdone f
    | cons n stack => simp [ahead] at hsteps
  | succ steps ih =>
    intro stack seen hsteps f
    cases stack with
    | nil => exact hdone f
    | cons n stack =>
      simp only [reachFrom]
      by_cases hskip : (seen.contains n || !w.isAlive n) = true
      · rw [if_pos hskip]
        have hout : n ∈ seen ∨ ¬ w.isAlive n = true := by simpa using hskip
        have hrest : w.ahead stack seen ≤ steps := by
          simp only [ahead, List.length_cons] at hsteps ⊢
          omega
        obtain ⟨hnodup, hmem⟩ := ih stack seen hrest (f.skip hout)
        exact ⟨hnodup, fun m => (hmem m).trans (f.covers_skip hout m)⟩
      · rw [if_neg hskip]
        obtain ⟨hn, hl⟩ : n ∉ seen ∧ w.isAlive n = true := by simpa using hskip
        have hvisit : w.ahead (w.successors n ++ stack) (n :: seen) + 1 = w.ahead (n :: stack) seen := ahead_visit hl hn
        obtain ⟨hnodup, hmem⟩ := ih _ _ (by omega) (f.visit hn hl)
        exact ⟨hnodup, fun m => (hmem m).trans (covers_visit hl stack seen m)⟩

theorem reachable_nodup (w : World α κ σ) (n : NodeId) : (w.reachable n).Nodup :=
  (reachFrom_spec _ _ _ (ahead_le_reachBound w n) (.start n)).1

theorem mem_reachable {n m : NodeId} : m ∈ w.reachable n ↔ Reach w n m := by
  rw [reachable, (reachFrom_spec _ _ _ (ahead_le_reachBound w n) (.start n)).2 m]
  simp

/-! ## The snapshot -/

variable [Scalar α] [SymbolKind κ]

/-- a snapshot lists what is reached from its root, under the ids it has in the scene -/
theorem Sound.snapshot_ids (h : Sound w) (n : NodeId) (tick seed : Int) :
    (w.snapshot n tick seed).nodes.map (·.id) = w.reachable n := by
  have hid (m : NodeId) (hm : m ∈ w.reachable n) : ((w.node? m).map w.nodeSnapshot).map (·.id) = some m := by
    obtain ⟨x, hx, -⟩ := isAlive_iff.1 (mem_reachable.1 hm).alive_right
    simp [hx, nodeSnapshot, h.id_eq m x hx]
  calc (w.snapshot n tick seed).nodes.map (·.id)
      = (w.reachable n).filterMap fun m => ((w.node? m).map w.nodeSnapshot).map (·.id) := by
        simp only [snapshot, List.map_filterMap, Option.map_map, Function.comp_def]
    _ = (w.reachable n).filterMap some := List.filterMap_congr hid
    _ = w.reachable n := List.filterMap_some

end World

open World

section

variable [Scalar α] [SymbolKind κ]

/-- **One tree.** In a reachable world, whatever rules have failed in it and wherever content was put, the snapshot of a
node lists each node once, lists living nodes only, and lists those that destroying the node would kill: every node that
is shown dies, and nothing else does. The listeners hear of each of them, and of each once. -/
theorem Reachable.snapshot_eq_teardown {w : World α κ σ} (h : Reachable w) (n : NodeId) (tick seed : Int) :
    ((w.snapshot n tick seed).nodes.map (·.id)).Nodup ∧
    (∀ m ∈ (w.snapshot n tick seed).nodes.map (·.id), w.isAlive m = true) ∧
    (∀ m, m ∈ (w.snapshot n tick seed).nodes.map (·.id) ↔
      w.isAlive m = true ∧ ¬ ((destroy n).after w).isAlive m = true) ∧
    ∃ dead : List NodeId, dead.Perm ((w.snapshot n tick seed).nodes.map (·.id)) ∧
      ((destroy n).after w).journal.toList = w.journal.toList ++ dead.map Entry.announced := by
  have hs := h.sound
  obtain ⟨dead, cleaned, hf⟩ := destroy_kills hs.toTame n
  have hdead (m : NodeId) : m ∈ dead ↔ Reach w n m := by
    rw [hf.mem_dead_iff]
    simp
  rw [hs.snapshot_ids n tick seed]
  refine ⟨reachable_nodup w n, fun m hm => (mem_reachable.1 hm).alive_right, fun m => ?_, dead, ?_, hf.torn.journal⟩
  · rw [mem_reachable, ← hdead, hf.torn.isAlive]
    constructor
    · intro hm
      exact ⟨hf.alive m hm, fun hv => hv.2 hm⟩
    · rintro ⟨hlm, hv⟩
      exact not_not.1 fun hm => hv ⟨hlm, hm⟩
  · refine (List.perm_ext_iff_of_nodup hf.nodup (reachable_nodup w n)).2 fun m => ?_
    rw [hdead, mem_reachable]

end

/-- the content of the first root hangs under the second, and is part of both trees -/
theorem snapshot_eq_teardown_abroad :
    let w := (lanternAbroad.run idle).after (.fresh ⟨fun _ => 0, 0⟩ ())
    (w.snapshot 1 0 0).nodes.map (·.id) = [1, 3, 4, 5] ∧ (w.snapshot 2 0 0).nodes.map (·.id) = [2, 4, 5] ∧
      ∀ m, m ∈ (w.snapshot 1 0 0).nodes.map (·.id) ↔
        w.isAlive m = true ∧ ¬ ((destroy 1).after w).isAlive m = true := by
  have heeds : lanternAbroad.Heeds idle (.fresh ⟨fun _ => 0, 0⟩ ()) :=
    Prog.heeds_perform (by decide +kernel) rfl <| Prog.heeds_perform (by decide +kernel) rfl <|
      Prog.heeds_perform (by decide +kernel) rfl <| Prog.heeds_perform (by decide +kernel) rfl rfl
  have h := Reachable.run idle lanternAbroad (.start (pristine_fresh _ _)) heeds
  exact ⟨by decide +kernel, by decide +kernel, (h.snapshot_eq_teardown 1 0 0).2.2.1⟩

end SceneGrammar
