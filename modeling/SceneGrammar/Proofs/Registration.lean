/-
What becomes of registrations while programs run.

A shape keeps the key of its start symbol, and a node that lives keeps its entry in the registry of shapes: both hold of
any world at all, of each part of a teardown however far it gets, and of every operation that names what is there, but
for the one that drops all entries (`unswept`).

- `Moves.stays`: what runs within that test leaves the entries of those alive, and all keys, as they are.
-/
import SceneGrammar.Proofs.Housed

namespace SceneGrammar.World

variable {α κ σ : Type} {w v u : World α κ σ} {n : NodeId} {s : ShapeId}

/-- nothing dead comes to life; keys stay, and the entries of those alive -/
structure Stays (w v : World α κ σ) : Prop where
  sizes : w.nodes.size ≤ v.nodes.size ∧ w.shapes.size ≤ v.shapes.size
  gone : ∀ m ≤ w.nodes.size, v.isAlive m = true → w.isAlive m = true
  rootKey : ∀ s < w.shapes.size, v.rootKeyAt s = w.rootKeyAt s
  registered : ∀ m ≤ w.nodes.size, v.isAlive m = true → v.registered? m = w.registered? m

theorem Stays.refl (w : World α κ σ) : Stays w w := ⟨⟨le_rfl, le_rfl⟩, fun _ _ => id, fun _ _ => rfl, fun _ _ _ => rfl⟩

theorem Stays.trans (h : Stays w v) (i : Stays v u) : Stays w u where
  sizes := ⟨h.sizes.1.trans i.sizes.1, h.sizes.2.trans i.sizes.2⟩
  gone m hm hl := h.gone m hm (i.gone m (hm.trans h.sizes.1) hl)
  rootKey s hs := (i.rootKey s (hs.trans_le h.sizes.2)).trans (h.rootKey s hs)
  registered m hm hl :=
    (i.registered m (hm.trans h.sizes.1) hl).trans (h.registered m hm (i.gone m (hm.trans h.sizes.1) hl))

theorem Stays.foldl {f : World α κ σ → NodeId → World α κ σ} (hf : ∀ w n, Stays w (f w n)) (ns : List NodeId)
    (w : World α κ σ) : Stays w (ns.foldl f w) := by
  induction ns generalizing w with
  | nil => exact .refl w
  | cons n ns ih => exact (hf w n).trans (ih (f w n))

/-! ## The parts of operations -/

/-- a change that leaves alone who is alive, all keys and all entries -/
theorem stays_of_alike (hn : v.nodes.size = w.nodes.size) (hs : v.shapes.size = w.shapes.size)
    (halive : ∀ m, v.isAlive m = w.isAlive m) (hkey : ∀ s, v.rootKeyAt s = w.rootKeyAt s) (hb : v.bound = w.bound) :
    Stays w v where
  sizes := ⟨hn.ge, hs.ge⟩
  gone m _ hl := (halive m).symm.trans hl
  rootKey s _ := hkey s
  registered m _ _ := by rw [registered?, hb, registered?]

/-- neither nodes nor shapes nor entries change -/
theorem stays_of_eq (hn : v.nodes = w.nodes) (hs : v.shapes = w.shapes) (hb : v.bound = w.bound) : Stays w v := by
  refine stays_of_alike (by rw [hn]) (by rw [hs]) (fun m => ?_) (fun s => ?_) hb
  · rw [isAlive, node?_congr hn, isAlive]
  · rw [rootKeyAt, shape?, hs]
    rfl

theorem SameScene.stays (e : SameScene w v) : Stays w v :=
  stays_of_alike (by rw [e.nodes]) e.size e.isAlive e.rootKey e.bound

theorem stays_modifyShape {f : Shape α κ → Shape α κ} (hr : ∀ x, (f x).rootKey = x.rootKey) (w : World α κ σ)
    (s : ShapeId) : Stays w (w.modifyShape s f) :=
  stays_of_alike rfl (by simp [modifyShape]) (fun _ => rfl) (rootKeyAt_modifyShape hr w s) rfl

theorem stays_reparent (w : World α κ σ) (n : NodeId) (parent : Option NodeId) : Stays w (w.reparent n parent) := by
  have hdetach : Stays w (w.detach n) := by
    refine stays_of_alike (size_detach w n) (by rw [detach_eq]) (fun m => ?_) (fun s => by rw [detach_eq]; rfl)
      (by rw [detach_eq])
    rw [isAlive, node?_detach, isAlive]
    cases w.node? m <;> rfl
  have hhang (v : World α κ σ) (p : NodeId) : Stays v (v.hang n p) := by
    refine stays_of_alike (size_hang v n p) (by rw [hang_eq]) (fun m => ?_) (fun s => by rw [hang_eq]; rfl)
      (by rw [hang_eq])
    rw [isAlive, node?_hang, isAlive]
    cases v.node? m <;> rfl
  cases parent with
  | none => exact hdetach
  | some p => exact hdetach.trans (hhang _ p)

theorem stays_addShape (w : World α κ σ) (kind : κ) : Stays w (w.addShape kind) where
  sizes := ⟨le_rfl, by simp [addShape]⟩
  gone _ _ := id
  rootKey s hs := by rw [rootKeyAt, shape?_addShape, if_neg hs.ne, rootKeyAt]
  registered _ _ _ := rfl

theorem Planted.stays {parent : Option NodeId} {count : Nat} (h : Planted w v parent count) : Stays w v where
  sizes := ⟨h.onward.size, by rw [h.rest]⟩
  gone := h.onward.gone
  rootKey s _ := by rw [rootKeyAt, h.rest]; rfl
  registered m _ _ := by rw [registered?, h.rest]; rfl

theorem stays_seat (kind : κ) (name : String) {parent : Option NodeId} (pose : Pose α) (rootKey : Option NodeId)
    (hp : ∀ p, parent = some p → w.isAlive p = true) : Stays w (w.seat kind name parent pose rootKey) where
  sizes := ⟨(brings_seat kind name pose rootKey hp).size, by rw [size_seat]; exact Nat.le_succ _⟩
  gone := (brings_seat kind name pose rootKey hp).gone
  rootKey s hs := by rw [rootKeyAt_seat, if_neg hs.ne]
  registered m hm _ := by rw [registered?_seat, if_neg (nextId_ne hm)]

theorem stays_take (w : World α κ σ) (creator : ShapeId) (first : NodeId) (count : Nat) :
    Stays w (w.take creator first count) := (sameScene_take w creator first count).stays

/-! ## Teardowns -/

/-- the entries of other nodes stay when those of one are dropped -/
theorem lookup_filter_ne {m : NodeId} (h : m ≠ n) (l : List (NodeId × ShapeId)) :
    (l.filter fun p => p.1 != n).lookup m = l.lookup m := by
  induction l with
  | nil => rfl
  | cons p l ih =>
    obtain ⟨k, t⟩ := p
    by_cases hk : k = n
    · have hmk : (m == k) = false := beq_eq_false_iff_ne.2 (hk ▸ h)
      simp [hk, ih, List.lookup_cons, hk ▸ hmk]
    · simp [hk, List.lookup_cons, ih]

/-- the end of one node -/
theorem stays_end (w : World α κ σ) (n : NodeId) : Stays w ((w.announce n).bury n) where
  sizes := by
    rw [size_bury, announce_eq, bury_eq]
    exact ⟨le_rfl, le_rfl⟩
  gone m _ hl := by
    rw [isAlive_bury, Bool.and_eq_true] at hl
    exact (onlyLoses_announce w n).alive m hl.1
  rootKey s _ := by rw [bury_eq, announce_eq]; rfl
  registered m _ hl := by
    rw [isAlive_bury, Bool.and_eq_true, bne_iff_ne] at hl
    rw [registered?, bury_eq, announce_eq, registered?]
    dsimp only
    split_ifs
    · exact lookup_filter_ne hl.2 w.bound
    · rfl

theorem stays_warnCleanup (w : World α κ σ) (s : ShapeId) (n : NodeId) : Stays w (w.warnCleanup s n) := by
  unfold warnCleanup
  cases w.node? n <;> exact stays_of_eq rfl rfl rfl

theorem cleanAt_stays {depth : Nat} (ih : ∀ (w : World α κ σ) s, Stays w (cleanWithin depth s w)) (w : World α κ σ)
    (n : NodeId) : Stays w (cleanAt depth n w) := by
  cases hs : w.shapeOn? n with
  | none =>
    rw [cleanAt_none hs]
    exact .refl w
  | some s =>
    rw [cleanAt_some hs]
    exact ih w s

/-- **Any teardown.** However far it gets, who lives on keeps its entry. -/
theorem stays_within (depth : Nat) : (∀ (w : World α κ σ) n, Stays w (destroyWithin depth n w).1) ∧
    ∀ (w : World α κ σ) s, Stays w (cleanWithin depth s w) := by
  induction depth with
  | zero => exact ⟨fun w n => .refl w, fun w s => .refl w⟩
  | succ depth ih =>
    refine ⟨fun w n => ?_, fun w s => ?_⟩
    · by_cases hl : w.isAlive n = true
      · rw [destroyWithin_alive hl]
        exact ((cleanAt_stays ih.2 w n).trans (.foldl (fun v c => ih.1 v c) _ _)).trans (stays_end _ n)
      · rw [destroyWithin_dead hl]
        exact .refl w
    · have hone (v : World α κ σ) (n : NodeId) : Stays v (cleanOne depth s v n) := by
        by_cases hl : v.isAlive n = true
        · have h := (cleanAt_stays ih.2 v n).trans (ih.1 _ n)
          rw [cleanOne_alive hl]
          split_ifs
          · exact h.trans (stays_warnCleanup _ s n)
          · exact h
        · rw [cleanOne, if_neg hl]
          exact .refl v
      cases hg : (w.shape? s).bind (·.generated) with
      | none =>
        rw [cleanWithin_none hg]
        exact .refl w
      | some gs =>
        rw [cleanWithin_some hg]
        have htake := stays_modifyShape (f := fun x => { x with generated := some [] }) (fun _ => rfl) w s
        exact (htake.trans (.foldl hone gs _)).trans
          (stays_modifyShape (f := fun x => { x with state := .cleared }) (fun _ => rfl) _ s)

theorem stays_destroy (n : NodeId) (w : World α κ σ) : Stays w ((destroy n).after w) :=
  after_destroy w n ▸ (stays_within w.teardownBound).1 w n

theorem stays_destroyAll (ns : List NodeId) (w : World α κ σ) : Stays w ((destroyAll ns).after w) :=
  destroyAll_leads .refl .trans stays_destroy ns w

/-! ## Operations -/

/-- operations that name what is there, or was, and do not drop all entries -/
def unswept (w : World α κ σ) (o : Op α κ σ) : Bool :=
  w.names o && match o with
    | .clear => false
    | _ => true

theorem asksNames_unswept : AsksNames (unswept : World α κ σ → Op α κ σ → Bool) := by
  intro w o h
  exact (Bool.and_eq_true_iff.1 h).1

theorem splits_unswept : Splits (unswept : World α κ σ → Op α κ σ → Bool) :=
  ⟨fun _ _ _ _ => rfl, fun _ _ _ _ _ _ => rfl, fun _ _ _ _ _ => rfl⟩

theorem stays_createRoot {parent : Option NodeId} (hk : w.knows parent = true) (offer : KindOffer κ) (name : String)
    (pose : Pose α) (source : Option SourceId) : Stays w ((createRoot offer name parent pose source).after w) := by
  rcases createRoot_cases offer name parent pose source w with ⟨e, hr⟩ | ⟨kind, -, hp, hr⟩
  · rw [Act.after_error hr]
    exact .refl w
  · rw [Act.after_ok hr]
    exact (stays_seat kind name pose none (mem_alive_of_parentFault? hp hk)).trans (stays_modifyShape
      (f := fun x => { x with components := x.components ++ source.toList.map .source }) (fun _ => rfl) _ _)

variable [SymbolKind κ]

theorem stays_deleteGenerated (w : World α κ σ) (s : ShapeId) : Stays w ((deleteGenerated s).after w) := by
  rcases deleteGenerated_after w s with hs | hs <;> rw [hs]
  · exact .refl w
  · exact (stays_within w.teardownBound).2 w s

theorem stays_placeSymbol (hw : ∀ s n, w.homeOf s = some n → w.shapeOn? n = some s) {parent : Option NodeId}
    (hk : w.knows parent = true) (creator : ShapeId) (offer : KindOffer κ) (name : String) (pose : Pose α) :
    Stays w ((placeSymbol creator offer name parent pose).after w) := by
  rcases placeSymbol_cases creator offer name parent pose w with ⟨e, hr⟩ | ⟨own, key, kind, ho, -, -, hp, hr⟩
  · rw [Act.after_error hr]
    exact .refl w
  · rw [Act.after_ok hr]
    have hpar := mem_alive_of_parentFault? hp (knows_getD (hw creator own ho) hk)
    exact (stays_seat kind name pose (some key) hpar).trans (stays_take _ _ _ _)

variable [Scalar α]

theorem stays_spawn (hw : ∀ s n, w.homeOf s = some n → w.shapeOn? n = some s) {parent : Option NodeId}
    (hk : w.knows parent = true) (creator : ShapeId) (template : TemplateRef α) (pose : Pose α) :
    Stays w ((spawn creator template parent pose).after w) := by
  rcases spawn_cases creator template parent pose w with ⟨e, hr⟩ | ⟨own, t, ho, -, hp, hr⟩
  · rw [Act.after_error hr]
    exact .refl w
  · rw [Act.after_ok hr]
    have hpar := mem_alive_of_parentFault? hp (knows_getD (hw creator own ho) hk)
    exact (planted_plant t w (some (parent.getD own)) pose hpar).stays.trans (stays_take _ _ _ _)

theorem performs_stays (hw : ∀ s n, w.homeOf s = some n → w.shapeOn? n = some s) {o : Op α κ σ}
    (ho : o.isPlain = true) (hp : w.unswept o = true) : Stays w ((does o).after w) := by
  have hnames : w.names o = true := asksNames_unswept w o hp
  cases o with
  | createSymbol | expand | generate | advance => cases ho
  | bind => cases hnames
  | clear => simp [unswept] at hp
  | createNode name parent pose =>
    show Stays w ((World.createNode name parent pose).after w)
    rcases createNode_cases name parent pose w with ⟨e, hr⟩ | ⟨hfault, hr⟩
    · rw [Act.after_error hr]
      exact .refl w
    · rw [Act.after_ok hr]
      exact (planted_addNode name .empty pose none (mem_alive_of_parentFault? hfault hnames)).stays
  | instantiate t parent pose =>
    show Stays w ((World.instantiate t parent pose).after w)
    rcases instantiate_cases t parent pose w with ⟨e, hr⟩ | ⟨hfault, hr⟩
    · rw [Act.after_error hr]
      exact .refl w
    · rw [Act.after_ok hr]
      exact (planted_plant t w parent pose (mem_alive_of_parentFault? hfault hnames)).stays
  | reparent n parent => exact stays_reparent w n parent
  | destroy n => exact stays_destroy n w
  | clearScene => exact stays_destroyAll w.roots w
  | newShape kind => exact stays_addShape w kind
  | createRoot offer name parent pose source =>
    exact stays_createRoot hnames offer name pose source
  | spawn creator template parent pose => exact stays_spawn hw hnames creator template pose
  | track s n => exact (sameScene_track w s n).stays
  | deleteGenerated s => exact stays_deleteGenerated w s
  | setKind s kind => exact stays_modifyShape (f := fun x => { x with kind }) (fun _ => rfl) w s
  | setComponents s cs => exact stays_modifyShape (f := fun x => { x with components := cs }) (fun _ => rfl) w s
  | reseed i seed =>
    show Stays w ((World.reseed i seed).after w)
    rcases reseed_after w i seed with h | ⟨r, e, h⟩ <;> rw [h] <;> exact stays_of_eq rfl rfl rfl
  | randomInt s low high =>
    show Stays w ((World.randomInt s low high).after w)
    rcases randomInt_after w s low high with h | ⟨i, r, e, -, h⟩ <;> rw [h] <;> exact stays_of_eq rfl rfl rfl
  | randomFraction s =>
    show Stays w ((World.randomFraction s).after w)
    rcases randomFraction_after w s with h | ⟨i, r, e, -, h⟩ <;> rw [h] <;> exact stays_of_eq rfl rfl rfl
  | schedule s delay =>
    show Stays w ((World.schedule s delay).after w)
    rcases schedule_cases w s delay with h | ⟨n, -, h⟩ <;> rw [h] <;> exact stays_of_eq rfl rfl rfl
  | _ => exact stays_of_eq rfl rfl rfl

theorem Move.stays (m : Move unswept w v) (h : Housed w) : Stays w v := by
  have hw (s : ShapeId) (n : NodeId) : w.homeOf s = some n → w.shapeOn? n = some s := (h.home_iff s n).1
  cases m with
  | plain o ho hp => exact performs_stays hw ho hp
  | place creator offer name parent pose hp =>
    exact stays_placeSymbol hw (asksNames_unswept w _ hp) creator offer name pose
  | begins s =>
    exact (stays_modifyShape (f := fun x => { x with state := .expanded }) (fun _ => rfl) w s).trans
      (stays_of_eq rfl rfl rfl)
  | _ => exact stays_of_eq rfl rfl rfl

/-- **Registration.** Who lives on keeps its entry, and every symbol its key. -/
theorem Moves.stays (m : Moves unswept w v) (h : Housed w) : Stays w v := by
  induction m with
  | refl => exact .refl w
  | tail hm hmove ih => exact ih.trans (hmove.stays (Moves.housed hm asksNames_unswept h))

end SceneGrammar.World
