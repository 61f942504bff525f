/-
The books of a scene in which dead shapes may go on.

`Reachable` asks that only living shapes create and expand. Here a rule may hold on to a shape whose node is dead, make
symbols and terminals of it below living nodes, and even plan an expansion of it; the rest is as there (`orderly`). Then
an appointment may belong to a shape that is registered no more, and a world is sound but for its agenda.

`Orderly` is what is left: without its appointments the world is sound, the agenda keeps its own books, and what may
still come up belongs to the shape that stands on the node. Every move keeps it (`Orderly.move`), so every world has it
that is reached in order (`Reached.orderly`).
-/
import SceneGrammar.Proofs.Diary.Frames
import SceneGrammar.Proofs.Moves
import SceneGrammar.Proofs.Reachable

namespace SceneGrammar.World

variable {α κ σ β : Type} {w : World α κ σ}

/-- an operation whose parents, and whose shape and node for a list, exist or existed; no shape is put on a node by hand -/
def names (w : World α κ σ) : Op α κ σ → Bool
  | .createNode _ parent _ => w.knows parent
  | .instantiate _ parent _ => w.knows parent
  | .createRoot _ _ parent _ _ => w.knows parent
  | .createSymbol _ _ _ parent _ => w.knows parent
  | .spawn _ _ parent _ => w.knows parent
  | .track s n => (w.shape? s).isSome && (w.node? n).isSome
  | .bind .. => false
  | _ => true

/-- an operation that, besides, hangs nothing anew, puts younger nodes on lists only, and makes no shape without a node -/
def orderly (w : World α κ σ) (o : Op α κ σ) : Bool :=
  w.names o && match o with
    | .reparent .. => false
    | .track s n => (w.homeOf s).all (· < n)
    | .newShape .. => false
    | _ => true

/-- a world that is sound but for its appointments, which belong to the shapes that stand on their nodes -/
structure Orderly (w : World α κ σ) : Prop where
  books : (w.rebook w.agenda.clear).Sound
  agenda_sound : w.agenda.Sound
  planned : ∀ e ∈ w.agenda.heap, e.cancelled = false → w.shapeOn? e.node = some e.shape

/-! ## Consequences -/

@[simp] theorem parentOf_rebook (w : World α κ σ) (c : Agenda α) (n : NodeId) :
    (w.rebook c).parentOf n = w.parentOf n := by simp [parentOf]

@[simp] theorem homeOf_rebook (w : World α κ σ) (c : Agenda α) (s : ShapeId) :
    (w.rebook c).homeOf s = w.homeOf s := rfl

@[simp] theorem knows_rebook (w : World α κ σ) (c : Agenda α) (parent : Option NodeId) :
    (w.rebook c).knows parent = w.knows parent := by simp [knows]

theorem Tame.of_rebook {c : Agenda α} (h : (w.rebook c).Tame) : w.Tame where
  mem_children n p := by simpa using h.mem_children n p
  children_nodup p := by simpa using h.children_nodup p
  parent_alive n p := by simpa using h.parent_alive n p
  home n s := by simpa using h.home n s
  newer := h.newer
  registry_nodup := h.registry_nodup

theorem Orderly.tame (h : Orderly w) : w.Tame := .of_rebook h.books.toTame

theorem Orderly.registered (h : Orderly w) (n : NodeId) : n ∈ w.registry ↔ w.isAlive n = true := by
  rw [← isAlive_rebook w w.agenda.clear]
  exact h.books.registered n

theorem Orderly.mem_bound (h : Orderly w) (n : NodeId) (s : ShapeId) :
    (n, s) ∈ w.bound ↔ w.isAlive n = true ∧ w.shapeOn? n = some s := by
  rw [← isAlive_rebook w w.agenda.clear, ← shapeOn?_rebook w w.agenda.clear]
  exact h.books.mem_bound n s

theorem Orderly.home_iff (h : Orderly w) {s : ShapeId} {n : NodeId} :
    w.homeOf s = some n ↔ w.shapeOn? n = some s := by
  rw [← shapeOn?_rebook w w.agenda.clear]
  exact h.books.home_iff

/-! ## Every move keeps it -/

/-- no appointment is left to speak against it -/
theorem Sound.clearBooks {c : Agenda α} (h : (w.rebook c).Sound) (a : Agenda α) : (w.rebook a.clear).Sound :=
  h.agenda (a := a.clear) ⟨by simp [Agenda.clear], by simp [Agenda.clear], by simp [Agenda.clear],
    by simp [Agenda.clear], by simp [Agenda.clear]⟩ (by simp [Agenda.clear])

theorem Sound.orderly (h : Sound w) : Orderly w where
  books := Sound.clearBooks (c := w.agenda) h w.agenda
  agenda_sound := h.agenda_sound
  planned e he hc := ((h.mem_bound _ _).1 (h.planned e he hc)).2

/-- what is done to the agenda alone -/
theorem Orderly.rebook (h : Orderly w) {a : Agenda α} (ha : a.Sound)
    (hp : ∀ e ∈ a.heap, e.cancelled = false → w.shapeOn? e.node = some e.shape) : Orderly (w.rebook a) where
  books := h.books.clearBooks a
  agenda_sound := ha
  planned e he hc := by
    rw [shapeOn?_rebook]
    exact hp e he hc

/-- what is done to the scene without a look at the agenda -/
theorem Orderly.blind {a : Act α κ σ β} (ha : a.Blind) (h : Orderly w) (hs : (a.after (w.rebook w.agenda.clear)).Sound)
    (hh : ∀ s n, w.homeOf s = some n → (a.after (w.rebook w.agenda.clear)).homeOf s = some n) : Orderly (a.after w) := by
  obtain ⟨es, hafter⟩ := ha.after_rebook w
  have hagenda : (a.after w).agenda = w.cancelAll (endedIn es) w.agenda := congrArg World.agenda (hafter w.agenda)
  rw [hafter] at hs hh
  obtain ⟨hsound, hold⟩ := cancelAll_sound (w := w) (endedIn es) h.agenda_sound
  refine ⟨hs.clearBooks _, hagenda ▸ hsound, fun e he hc => ?_⟩
  rw [hagenda] at he
  have hon := h.planned e (hold e he hc).1 hc
  simpa using hs.on_home _ _ (hh _ _ (h.home_iff.2 hon))

/-- a change that is made of steps in the world without appointments -/
theorem Orderly.steps {a : Act α κ σ β} (ha : a.Blind) (h : Orderly w)
    (hs : Steps (w.rebook w.agenda.clear) (a.after (w.rebook w.agenda.clear))) : Orderly (a.after w) :=
  h.blind ha (hs.sound h.books) hs.later.homes

theorem Orderly.cancel (h : Orderly w) (n : NodeId) : Orderly (w.rebook (w.agenda.cancel n).2) := by
  refine h.rebook (h.agenda_sound.cancel n) fun e he hc => ?_
  obtain ⟨he', hc', -⟩ := (Agenda.mem_heap_cancel_live h.agenda_sound n e).1 ⟨he, hc⟩
  exact h.planned e he' hc'

/-- the entry of an expansion that begins or has ended -/
theorem Orderly.enters (h : Orderly w) {f : World α κ σ → World α κ σ} (hf : ∀ w c, f (w.rebook c) = (f w).rebook c)
    {e : Entry} (he : e.ended? = none) (hj : ∀ w, (f w).journal = w.journal.push e) (hs : ∀ w, Steps w (f w)) :
    Orderly (f w) := by
  have hblind : Act.Blind fun w => .ok () (f w) := by
    apply Act.blind_of_rebook
    · intro w
      refine ⟨[e], by simp [endedIn, he], ?_⟩
      simp [Act.after, hj]
    · intro w c
      simp only [hf]
      rfl
  exact h.steps hblind (hs _)

theorem splits_orderly : Splits (World.orderly : World α κ σ → Op α κ σ → Bool) :=
  ⟨fun _ _ _ _ => rfl, fun _ _ _ _ _ _ => rfl, fun _ _ _ _ _ => rfl⟩

/-- the parent of what a shape makes is there: the one that is named, or the shape's own node -/
theorem knows_getD {s : ShapeId} {own : NodeId} {parent : Option NodeId} (hs : w.shapeOn? own = some s)
    (hk : w.knows parent = true) : w.knows (some (parent.getD own)) = true := by
  cases parent with
  | some p => exact hk
  | none =>
    obtain ⟨x, hx, -⟩ := Option.bind_eq_some_iff.1 hs
    simp [knows, hx]

variable [SymbolKind κ]

/-- a symbol that comes leaves a sound world, also if its creator is dead -/
theorem Sound.placeSymbol (h : Sound w) {parent : Option NodeId} (hk : w.knows parent = true) (creator : ShapeId)
    (offer : KindOffer κ) (name : String) (pose : Pose α) :
    ((placeSymbol creator offer name parent pose).after w).Sound ∧
      Later w ((World.placeSymbol creator offer name parent pose).after w) := by
  rcases placeSymbol_cases creator offer name parent pose w with ⟨e, hr⟩ | ⟨own, key, kind, ho, hkey, -, hp, hr⟩
  · rw [Act.after_error hr]
    exact ⟨h, .refl w⟩
  rw [Act.after_ok hr]
  obtain rfl : key = (w.rootKeyAt creator).getD own := Except.ok.inj (hkey.symm.trans (rootKeyOf_eq ho))
  have hown : own ≤ w.nodes.size := le_size_of_shapeOn? (h.on_home creator own ho)
  have hpar := mem_alive_of_parentFault? hp (knows_getD (h.on_home creator own ho) hk)
  have a := adds_seat w kind name (some (parent.getD own)) pose (some ((w.rootKeyAt creator).getD own)) hpar
  have hseat := h.seat kind name (some (parent.getD own)) pose (some ((w.rootKeyAt creator).getD own)) hpar fun k hk => by
    rw [← Option.some.inj hk]
    exact (h.key_getD_le ho).trans (hown.trans (Nat.le_succ _))
  refine ⟨hseat.take a.size.ge (fun n hn => ?_) 1, (later_seat kind name _ pose _ hpar).trans (later_take _ _ _ _)⟩
  rw [homeOf_seat, if_neg (lt_size_of_homeOf ho).ne, ho, Option.some.injEq] at hn
  exact hn ▸ Nat.lt_succ_of_le hown

/-- a terminal that comes leaves a sound world, also if its creator is dead -/
theorem Sound.spawn [Scalar α] (h : Sound w) {parent : Option NodeId} (hk : w.knows parent = true) (creator : ShapeId)
    (template : TemplateRef α) (pose : Pose α) :
    ((spawn creator template parent pose).after w).Sound ∧
      Later w ((World.spawn creator template parent pose).after w) := by
  rcases spawn_cases creator template parent pose w with ⟨e, hr⟩ | ⟨own, t, ho, -, hp, hr⟩
  · rw [Act.after_error hr]
    exact ⟨h, .refl w⟩
  rw [Act.after_ok hr]
  have hle : own ≤ w.nodes.size := le_size_of_shapeOn? (h.on_home creator own ho)
  have hplant := planted_plant t w (some (parent.getD own)) pose
    (mem_alive_of_parentFault? hp (knows_getD (h.on_home creator own ho) hk))
  have hnew : w.nextId ≤ (w.plant t (some (parent.getD own)) pose).nodes.size := by
    rw [hplant.size]
    exact Nat.add_le_add_left t.size_pos _
  refine ⟨(hplant.steps.sound h).take hnew (fun n hn => ?_) _, hplant.steps.later.trans (later_take _ _ _ _)⟩
  have hsame : (w.plant t (some (parent.getD own)) pose).homeOf creator = some own := by
    rw [hplant.rest]
    exact ho
  rw [hsame, Option.some.injEq] at hn
  exact hn ▸ Nat.lt_succ_of_le hle

variable [Scalar α] {v : World α κ σ}

theorem Orderly.performs (h : Orderly w) {o : Op α κ σ} (ho : o.isPlain = true) (hp : w.orderly o = true) :
    Orderly ((does o).after w) := by
  -- what is permitted, too, is made of steps
  have hidle (hi : o.Idle) (hperm : (w.rebook w.agenda.clear).permits o = true) : Orderly ((does o).after w) :=
    h.steps (perform_blind 0 _ hi)
      (steps_endure h.books 0 (fun _ w => .ok () w) (fun _ _ hs => hs) _ o .refl hperm)
  cases o with
  | createSymbol | expand | generate | advance => cases ho
  | reparent | newShape | bind => simp [World.orderly, names] at hp
  | spawn creator template parent pose =>
    have hk : (w.rebook w.agenda.clear).knows parent = true := by simpa [World.orderly, names] using hp
    obtain ⟨hs, hl⟩ := h.books.spawn hk creator template pose
    exact h.blind (blind_spawn creator template parent pose) hs hl.homes
  | clear =>
    have hs := (clear_steps h.books).sound h.books
    exact (show (clear.after w).Sound from hs).orderly
  | schedule s delay =>
    simp only [does, perform, Act.after, schedule]
    split_ifs
    · exact h
    cases hn : w.nodeOf s with
    | error e => exact h
    | ok n =>
      refine h.rebook (h.agenda_sound.schedule n s delay) fun e he hc => ?_
      rcases Agenda.mem_heap_schedule.1 he with rfl | he
      · exact h.home_iff.1 (nodeOf_eq_ok_iff.1 hn)
      · exact (h.cancel n).planned e he hc
  | cancel n => exact h.cancel n
  | clearAgenda => exact h.rebook h.agenda_sound.clear (by simp [Agenda.clear])
  | createNode | instantiate | createRoot =>
    exact hidle trivial (by simpa [World.orderly, names, permits] using hp)
  | track s n =>
    refine hidle trivial ?_
    simp only [World.orderly, names, Bool.and_eq_true] at hp
    simpa [permits] using ⟨hp.1.2, hp.2⟩
  | _ => exact hidle trivial rfl

/-- **One move.** What is done in order keeps a world orderly. -/
theorem Orderly.move (h : Orderly w) (m : Move World.orderly w v) : Orderly v := by
  cases m with
  | plain o ho hp => exact h.performs ho hp
  | place creator offer name parent pose hp =>
    have hk : (w.rebook w.agenda.clear).knows parent = true := by simpa [World.orderly, names] using hp
    obtain ⟨hs, hl⟩ := h.books.placeSymbol hk creator offer name pose
    exact h.blind (blind_placeSymbol creator offer name parent pose) hs hl.homes
  | begins s =>
    exact h.enters (f := fun w => w.markExpanded s) (fun _ _ => rfl) (e := .began s) rfl (fun _ => rfl)
      fun w => markExpanded_steps w s
  | finishes s =>
    exact h.enters (f := fun w => w.note (.finished s)) (fun _ _ => rfl) (e := .finished s) rfl (fun _ => rfl)
      fun w => .single (step_note w _ (by simp))
  | tick dt => exact h.rebook (h.agenda_sound.tick dt) h.planned
  | drop hp hc =>
    exact h.rebook (h.agenda_sound.pop_dropped hp hc) fun f hf => h.planned f ((Agenda.mem_of_popDue hp).2 (Or.inr hf))
  | settle hp hc =>
    exact h.rebook (h.agenda_sound.pop_settled hp hc) fun f hf => h.planned f ((Agenda.mem_of_popDue hp).2 (Or.inr hf))

/-- **Order.** Whatever is reached in order is orderly, in the midst of rules and after failures, too. -/
theorem Reached.orderly (h : Reached World.orderly w) : Orderly w :=
  h.invariant (fun _ hw => hw.sound.orderly) fun _ _ hw m => hw.move m

end SceneGrammar.World
