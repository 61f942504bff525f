/-
What a teardown does at most, in any world at all.

Nothing is asked of the world here: content may own itself, nodes may hang in circles, and the bound on the nesting of
calls may be met. `OnlyLoses w v tops`: nothing came to life, and a shape is as it was or its list was emptied; the latter
befalls the shapes `tops` and those whose nodes have died. `onlyLoses_within` proves it of every teardown, and that a node
whose destruction begins within the bound is dead at its end. So a deletion leaves an empty list and nothing alive of
what was on it (`clean_spends`).
-/
import SceneGrammar.Proofs.Framing

namespace SceneGrammar.World

variable {α κ σ : Type} {w v u : World α κ σ} {n : NodeId} {s : ShapeId} {t r : List ShapeId}

/-- a shape whose list was emptied -/
def spentShape (x : Shape α κ) : Shape α κ := { x with generated := some [], state := .cleared }

/-- nothing came to life, and lists were emptied of the shapes `tops` and of shapes whose nodes died, if at all -/
structure OnlyLoses (w v : World α κ σ) (tops : List ShapeId) : Prop where
  sizes : v.nodes.size = w.nodes.size ∧ v.shapes.size = w.shapes.size
  alive : ∀ m, v.isAlive m = true → w.isAlive m = true
  carries : ∀ m, v.shapeOn? m = w.shapeOn? m
  shape : ∀ s, v.shape? s = w.shape? s ∨ v.shape? s = (w.shape? s).map spentShape ∧
    (s ∈ tops ∨ ∃ m, w.shapeOn? m = some s ∧ w.isAlive m = true ∧ ¬ v.isAlive m = true)

theorem OnlyLoses.refl (w : World α κ σ) (tops : List ShapeId) : OnlyLoses w w tops :=
  ⟨⟨rfl, rfl⟩, fun _ => id, fun _ => rfl, fun _ => Or.inl rfl⟩

theorem OnlyLoses.trans (h : OnlyLoses w v t) (i : OnlyLoses v u r) : OnlyLoses w u (t ++ r) where
  sizes := ⟨i.sizes.1.trans h.sizes.1, i.sizes.2.trans h.sizes.2⟩
  alive m hm := h.alive m (i.alive m hm)
  carries m := (i.carries m).trans (h.carries m)
  shape s := by
    have hspent (x : Option (Shape α κ)) : (x.map spentShape).map spentShape = x.map spentShape := by
      cases x <;> rfl
    rcases i.shape s with hi | ⟨hi, hor⟩
    · rcases h.shape s with hh | ⟨hh, hor⟩
      · exact Or.inl (hi.trans hh)
      · refine Or.inr ⟨hi.trans hh, hor.imp (List.mem_append_left _) ?_⟩
        rintro ⟨m, hm, hl, hd⟩
        exact ⟨m, hm, hl, fun hu => hd (i.alive m hu)⟩
    · refine Or.inr ⟨?_, hor.imp (List.mem_append_right _) ?_⟩
      · rcases h.shape s with hh | ⟨hh, -⟩
        · rw [hi, hh]
        · rw [hi, hh, hspent]
      · rintro ⟨m, hm, hl, hd⟩
        exact ⟨m, h.carries m ▸ hm, h.alive m hl, hd⟩

/-- the same, with fewer shapes named: the nodes of the rest died -/
theorem OnlyLoses.retold (h : OnlyLoses w v t)
    (ht : ∀ s ∈ t, s ∈ r ∨ ∃ m, w.shapeOn? m = some s ∧ w.isAlive m = true ∧ ¬ v.isAlive m = true) : OnlyLoses w v r :=
  { h with shape := fun s => (h.shape s).imp_right fun ⟨hs, hor⟩ => ⟨hs, hor.elim (ht s) Or.inr⟩ }

theorem OnlyLoses.foldl {f : World α κ σ → NodeId → World α κ σ} (hf : ∀ w n, OnlyLoses w (f w n) []) (ns : List NodeId)
    (w : World α κ σ) : OnlyLoses w (ns.foldl f w) [] := by
  induction ns generalizing w with
  | nil => exact .refl w []
  | cons n ns ih => exact (hf w n).trans (ih (f w n))

/-- a loop over nodes at whose turns they die -/
theorem OnlyLoses.foldl_dead {f : World α κ σ → NodeId → World α κ σ} (hf : ∀ w n, OnlyLoses w (f w n) [])
    (hd : ∀ w n, ¬ (f w n).isAlive n = true) {ns : List NodeId} (hn : n ∈ ns) (w : World α κ σ) :
    ¬ (ns.foldl f w).isAlive n = true := by
  obtain ⟨pre, post, rfl⟩ := List.append_of_mem hn
  rw [List.foldl_append, List.foldl_cons]
  exact fun hl => hd _ n ((OnlyLoses.foldl hf post _).alive n hl)

/-! ## The parts of a teardown -/

/-- a change of neither nodes nor shapes -/
theorem onlyLoses_of_eq (hn : v.nodes = w.nodes) (hs : v.shapes = w.shapes) : OnlyLoses w v [] where
  sizes := ⟨by rw [hn], by rw [hs]⟩
  alive m := by simp [isAlive, node?_congr hn m]
  carries m := by rw [shapeOn?, node?_congr hn, shapeOn?]
  shape s := by
    left
    rw [shape?, hs, shape?]

theorem onlyLoses_announce (w : World α κ σ) (n : NodeId) : OnlyLoses w (w.announce n) [] :=
  onlyLoses_of_eq (by rw [announce_eq]) (by rw [announce_eq])

theorem onlyLoses_warnCleanup (w : World α κ σ) (s : ShapeId) (n : NodeId) : OnlyLoses w (w.warnCleanup s n) [] := by
  unfold warnCleanup
  cases w.node? n <;> exact onlyLoses_of_eq rfl rfl

theorem isAlive_bury (w : World α κ σ) (n m : NodeId) : (w.bury n).isAlive m = (w.isAlive m && m != n) := by
  rw [isAlive, node?_bury, isAlive]
  by_cases hm : m = n <;> cases w.node? m <;> simp [hm]

theorem onlyLoses_bury (w : World α κ σ) (n : NodeId) : OnlyLoses w (w.bury n) [] where
  sizes := ⟨size_bury w n, by rw [bury_eq]⟩
  alive m hm := by
    rw [isAlive_bury, Bool.and_eq_true] at hm
    exact hm.1
  carries := shapeOn?_bury w n
  shape s := by
    left
    rw [bury_eq]
    rfl

/-! ## The two functions -/

/-- destroying within a bound -/
def DestroyOnlyLoses (α κ σ : Type) (depth : Nat) : Prop :=
  ∀ (w : World α κ σ) (n : NodeId), OnlyLoses w (destroyWithin depth n w).1 [] ∧
    (0 < depth → ¬ (destroyWithin depth n w).1.isAlive n = true)

/-- cleaning within a bound -/
def CleanOnlyLoses (α κ σ : Type) (depth : Nat) : Prop :=
  ∀ (w : World α κ σ) (s : ShapeId), OnlyLoses w (cleanWithin depth s w) [s]

theorem cleanAt_onlyLoses {depth : Nat} (ih : CleanOnlyLoses α κ σ depth) (w : World α κ σ) (n : NodeId) :
    OnlyLoses w (cleanAt depth n w) (w.shapeOn? n).toList := by
  cases hs : w.shapeOn? n with
  | none =>
    rw [cleanAt_none hs]
    exact .refl w _
  | some s =>
    rw [cleanAt_some hs]
    exact ih w s

theorem destroy_onlyLoses_step {depth : Nat} (ihd : DestroyOnlyLoses α κ σ depth) (ihc : CleanOnlyLoses α κ σ depth) :
    DestroyOnlyLoses α κ σ (depth + 1) := by
  intro w n
  by_cases hl : w.isAlive n = true
  swap
  · rw [destroyWithin_dead hl]
    exact ⟨.refl w [], fun _ => hl⟩
  rw [destroyWithin_alive hl]
  -- its shape's content, its children, the node
  have h₁ := cleanAt_onlyLoses ihc w n
  have h₂ := OnlyLoses.foldl (fun v c => (ihd v c).1) ((cleanAt depth n w).children n) (cleanAt depth n w)
  generalize ((cleanAt depth n w).children n).foldl (fun w c => (destroyWithin depth c w).1) (cleanAt depth n w) = u at h₂ ⊢
  have hdead : ¬ ((u.announce n).bury n).isAlive n = true := by simp [isAlive_bury]
  refine ⟨(((h₁.trans h₂).trans (onlyLoses_announce u n)).trans (onlyLoses_bury _ n)).retold fun s hs => ?_,
    fun _ => hdead⟩
  refine Or.inr ⟨n, ?_, hl, hdead⟩
  simpa using hs

/-- a turn of the loop over a list: the node is dead at its end, and its shape, if it carries one, with it -/
theorem cleanOne_onlyLoses {depth : Nat} (ihd : DestroyOnlyLoses α κ σ depth) (ihc : CleanOnlyLoses α κ σ depth)
    (s : ShapeId) (w : World α κ σ) (n : NodeId) :
    OnlyLoses w (cleanOne depth s w n) [] ∧ (0 < depth → ¬ (cleanOne depth s w n).isAlive n = true) := by
  by_cases hl : w.isAlive n = true
  swap
  · rw [cleanOne, if_neg hl]
    exact ⟨.refl w [], fun _ => hl⟩
  obtain ⟨h₂, hdead⟩ := ihd (cleanAt depth n w) n
  obtain ⟨h₃, hsame⟩ : OnlyLoses (destroyWithin depth n (cleanAt depth n w)).1 (cleanOne depth s w n) [] ∧
      (cleanOne depth s w n).isAlive n = (destroyWithin depth n (cleanAt depth n w)).1.isAlive n := by
    rw [cleanOne_alive hl]
    split_ifs
    · refine ⟨onlyLoses_warnCleanup _ s n, ?_⟩
      unfold warnCleanup
      cases (destroyWithin depth n (cleanAt depth n w)).1.node? n <;> rfl
    · exact ⟨.refl _ [], rfl⟩
  refine ⟨?_, fun hd => hsame ▸ hdead hd⟩
  cases depth with
  | zero =>
    have hnone : cleanAt 0 n w = w := by
      unfold cleanAt
      cases w.shapeOn? n <;> rfl
    rw [hnone] at h₂ h₃
    exact h₂.trans h₃
  | succ depth =>
    refine (((cleanAt_onlyLoses ihc w n).trans h₂).trans h₃).retold fun r hr => ?_
    refine Or.inr ⟨n, ?_, hl, hsame ▸ hdead (Nat.succ_pos _)⟩
    simpa using hr

theorem shape?_takeGenerated (w : World α κ σ) (s r : ShapeId) : (w.takeGenerated s).shape? r =
    if r = s then (w.shape? r).map fun x => { x with generated := some [] } else w.shape? r :=
  shape?_modifyShape w s r _

theorem shape?_markCleared (w : World α κ σ) (s r : ShapeId) : (w.markCleared s).shape? r =
    if r = s then (w.shape? r).map fun x => { x with state := .cleared } else w.shape? r :=
  shape?_modifyShape w s r _

/-- what was done after a list was taken, told from before; the shape of the list has spent it in the end -/
theorem OnlyLoses.markCleared (h : OnlyLoses (w.takeGenerated s) v []) :
    OnlyLoses w (v.markCleared s) [s] ∧ (v.markCleared s).shape? s = (w.shape? s).map spentShape := by
  have hown : (v.markCleared s).shape? s = (w.shape? s).map spentShape := by
    have hs := h.shape s
    rw [shape?_takeGenerated, if_pos rfl] at hs
    rw [shape?_markCleared, if_pos rfl]
    rcases hs with hs | ⟨hs, -⟩ <;> rw [hs] <;> cases w.shape? s <;> rfl
  refine ⟨⟨?_, h.alive, h.carries, fun r => ?_⟩, hown⟩
  · have hsizes := h.sizes
    simpa [World.markCleared, takeGenerated, modifyShape] using hsizes
  · by_cases hr : r = s
    · exact Or.inr ⟨hr ▸ hown, Or.inl (by simp [hr])⟩
    · have hshape := h.shape r
      rw [shape?_takeGenerated, if_neg hr] at hshape
      rw [shape?_markCleared, if_neg hr]
      exact hshape.imp_right fun hspent => ⟨hspent.1, Or.inr (hspent.2.resolve_left (by simp))⟩

theorem clean_onlyLoses_step {depth : Nat} (ihd : DestroyOnlyLoses α κ σ depth) (ihc : CleanOnlyLoses α κ σ depth) :
    CleanOnlyLoses α κ σ (depth + 1) := by
  intro w s
  cases hg : (w.shape? s).bind (·.generated) with
  | none =>
    rw [cleanWithin_none hg]
    exact .refl w [s]
  | some gs =>
    rw [cleanWithin_some hg]
    exact (OnlyLoses.foldl (fun v n => (cleanOne_onlyLoses ihd ihc s v n).1) gs _).markCleared.1

/-- **Any teardown.** However far it gets, nothing comes to life, and only those lists are emptied that are asked for or
whose shapes die. -/
theorem onlyLoses_within (depth : Nat) : DestroyOnlyLoses α κ σ depth ∧ CleanOnlyLoses α κ σ depth := by
  induction depth with
  | zero => exact ⟨fun w n => ⟨.refl w [], fun h => absurd h (lt_irrefl 0)⟩, fun w s => .refl w [s]⟩
  | succ depth ih => exact ⟨destroy_onlyLoses_step ih.1 ih.2, clean_onlyLoses_step ih.1 ih.2⟩

/-- with room for two calls, a list that is there is spent in the end, and what was on it is dead -/
theorem cleanWithin_spends {gs : List NodeId} (hg : (w.shape? s).bind (·.generated) = some gs) (depth : Nat) :
    (cleanWithin (depth + 2) s w).shape? s = (w.shape? s).map spentShape ∧
      ∀ g ∈ gs, ¬ (cleanWithin (depth + 2) s w).isAlive g = true := by
  obtain ⟨ihd, ihc⟩ := onlyLoses_within (α := α) (κ := κ) (σ := σ) (depth + 1)
  rw [cleanWithin_some hg]
  refine ⟨(OnlyLoses.foldl (fun v n => (cleanOne_onlyLoses ihd ihc s v n).1) gs _).markCleared.2, fun g hgs => ?_⟩
  exact OnlyLoses.foldl_dead (fun v n => (cleanOne_onlyLoses ihd ihc s v n).1)
    (fun v n => (cleanOne_onlyLoses ihd ihc s v n).2 (Nat.succ_pos _)) hgs _

theorem two_le_teardownBound (w : World α κ σ) : 2 ≤ w.teardownBound := by
  rw [teardownBound_eq]
  omega

/-- a deletion for a shape in a scene does not fail -/
theorem deleteGenerated_eq [SymbolKind κ] (hn : w.homeOf s = some n) :
    deleteGenerated s w = .ok () (cleanWithin w.teardownBound s w) := by
  obtain ⟨depth, hdepth⟩ := Nat.exists_eq_add_of_le' (two_le_teardownBound w)
  cases hg : (w.shape? s).bind (·.generated) with
  | none => rw [deleteGenerated, hg, hdepth, cleanWithin_none hg]
  | some gs => rw [deleteGenerated, hg, inContext_eq hn]

/-- **Any deletion.** In the end what was on the list is dead, and the list is empty; it is spent unless there was none. -/
theorem clean_spends (w : World α κ σ) (s : ShapeId) :
    (∀ g ∈ w.generatedBy s, ¬ (cleanWithin w.teardownBound s w).isAlive g = true) ∧
      (cleanWithin w.teardownBound s w).generatedBy s = [] ∧
      ∀ x, (cleanWithin w.teardownBound s w).shape? s = some x → x.generated = none ∨ x = spentShape x := by
  obtain ⟨depth, hdepth⟩ := Nat.exists_eq_add_of_le' (two_le_teardownBound w)
  rw [hdepth]
  cases hg : (w.shape? s).bind (·.generated) with
  | none =>
    have hnil : w.generatedBy s = [] := by rw [generatedBy, hg]; rfl
    rw [cleanWithin_none hg]
    refine ⟨by simp [hnil], hnil, fun x hx => Or.inl ?_⟩
    rwa [hx] at hg
  | some gs =>
    obtain ⟨hs, hd⟩ := cleanWithin_spends hg depth
    refine ⟨by rwa [generatedBy, hg], ?_, fun x hx => Or.inr ?_⟩
    · rw [generatedBy, hs]
      cases w.shape? s <;> rfl
    · rw [hs] at hx
      obtain ⟨y, -, rfl⟩ := Option.map_eq_some_iff.1 hx
      rfl

end SceneGrammar.World
