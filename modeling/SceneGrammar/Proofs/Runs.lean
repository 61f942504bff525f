/-
Runs of arbitrary programs and rules.

`Reachable w`: `w` comes about from a world in which nothing has happened by running programs, each in some grammar, as
long as they heed `permits`: no node is hung anew, no shape comes about apart from a node, creation and expansion are
asked of living shapes only, and only younger nodes are put on a shape's list. A program may fail at any point, and so
may a rule within it; what has happened before stays.

Apart from the rules it runs, everything that an operation does is a sequence of steps: one lemma for each.
-/
import SceneGrammar.Proofs.Steps
import SceneGrammar.Program

namespace SceneGrammar

variable {α κ σ β : Type}

/-! ## What is permitted -/

namespace World

/-- a parent that is named exists, or existed -/
def knows (w : World α κ σ) (parent : Option NodeId) : Bool := parent.all fun p => (w.node? p).isSome

/-- the operations that keep the books right -/
def permits (w : World α κ σ) : Op α κ σ → Bool
  | .createNode _ parent _ => w.knows parent
  | .instantiate _ parent _ => w.knows parent
  | .createRoot _ _ parent _ _ => w.knows parent
  | .createSymbol creator _ _ parent _ => w.shapeAlive creator && w.knows parent
  | .spawn creator _ parent _ => w.shapeAlive creator && w.knows parent
  | .track s n => (w.node? n).isSome && (w.homeOf s).all (· < n)
  | .generate s _ => w.shapeAlive s
  | .schedule s _ => w.shapeAlive s
  | .reparent .. => false
  | .newShape .. => false
  | .bind .. => false
  | _ => true

end World

/-- a program that fails where an operation is not permitted -/
def Prog.guarded {β : Type} (ok : World α κ σ → Op α κ σ → Bool) : Prog α κ σ β → Prog α κ σ β
  | .done b => .done b
  | .fail fault => .fail fault
  | .look f next => .look f fun x => (next x).guarded ok
  | .perform o next => .look (ok · o) fun permitted =>
    if permitted then .perform o fun x => (next x).guarded ok else .fail .tooDeep
  | .attempt body next => .attempt (body.guarded ok) fun r => (next r).guarded ok

/-- a grammar whose rules fail where an operation is not permitted -/
def Grammar.guarded (g : Grammar α κ σ) (ok : World α κ σ → Op α κ σ → Bool) : Grammar α κ σ :=
  { g with rule := fun kind s => (g.rule kind s).guarded ok }

/-- where an act leaves a world, whether it fails or not -/
def Act.after (a : Act α κ σ β) (w : World α κ σ) : World α κ σ :=
  match a w with
  | .ok _ v => v
  | .error _ v => v

/-- what an act answers, if it does not fail -/
def Act.answer? (a : Act α κ σ β) (w : World α κ σ) : Option β :=
  match a w with
  | .ok b _ => some b
  | .error _ _ => none

section

variable [Scalar α] [SymbolKind κ]

/-- a run in which everything is permitted: it is the same when the rest is refused -/
def Prog.Heeds (g : Grammar α κ σ) (p : Prog α κ σ β) (w : World α κ σ) : Prop :=
  (p.guarded World.permits).run (g.guarded World.permits) w = p.run g w

/-- an operation that passes a test, and runs no rule or one that does, may stand before the rest -/
theorem Prog.exec_guarded_perform {ok : World α κ σ → Op α κ σ → Bool} {spare : Nat}
    {expand expand' : ShapeId → Act α κ σ Unit} {o : Op α κ σ} {next : o.Answer → Prog α κ σ β} {w : World α κ σ}
    (hp : ok w o = true) (hrun : World.perform spare expand' o w = World.perform spare expand o w)
    (hnext : ∀ x v, World.perform spare expand o w = .ok x v →
      ((next x).guarded ok).exec spare expand' v = (next x).exec spare expand v) :
    ((Prog.perform o next).guarded ok).exec spare expand' w = (Prog.perform o next).exec spare expand w := by
  simp only [guarded, exec, hp, if_true, hrun]
  cases hr : World.perform spare expand o w with
  | error e v => rfl
  | ok x v => exact hnext x v hr

/-- an operation that is permitted, and runs no rule or one that heeds, may stand before the rest -/
theorem Prog.heeds_perform {g : Grammar α κ σ} {o : Op α κ σ} {next : o.Answer → Prog α κ σ β} {w : World α κ σ}
    (hp : w.permits o = true)
    (hrun : World.perform g.spare ((g.guarded World.permits).expandWithin g.nesting) o w =
      World.perform g.spare (g.expandWithin g.nesting) o w)
    (hnext : match World.perform g.spare (g.expandWithin g.nesting) o w with
      | .ok x v => (next x).Heeds g v
      | .error _ _ => True) : (Prog.perform o next).Heeds g w := by
  have hsame := Prog.exec_guarded_perform hp hrun fun x v hr => by
    rw [hr] at hnext
    exact hnext
  exact hsame

/-- so heeds such an operation alone -/
theorem Prog.heeds_act {g : Grammar α κ σ} {o : Op α κ σ} {w : World α κ σ} (hp : w.permits o = true)
    (hrun : World.perform g.spare ((g.guarded World.permits).expandWithin g.nesting) o w =
      World.perform g.spare (g.expandWithin g.nesting) o w) : (Prog.act o).Heeds g w := by
  refine Prog.heeds_perform hp hrun ?_
  cases World.perform g.spare (g.expandWithin g.nesting) o w with
  | ok x v => exact rfl
  | error e v => trivial

theorem Prog.run_act {g : Grammar α κ σ} (o : Op α κ σ) (w : World α κ σ) :
    (Prog.act o).run g w = World.perform g.spare (g.expandWithin g.nesting) o w := by
  simp only [run, act, exec]
  cases World.perform g.spare (g.expandWithin g.nesting) o w <;> rfl

/-- what programs and rules of any kind can make of a world in which nothing has happened -/
inductive Reachable : World α κ σ → Prop where
  | start {w : World α κ σ} : w.Pristine → Reachable w
  | run {w : World α κ σ} {β : Type} (g : Grammar α κ σ) (p : Prog α κ σ β) :
      Reachable w → p.Heeds g w → Reachable ((p.run g).after w)

end

/-! ## After an act -/

theorem Act.after_ok {a : Act α κ σ β} {w v : World α κ σ} {b : β} (h : a w = .ok b v) : a.after w = v := by
  rw [after, h]

theorem Act.after_congr {a b : Act α κ σ β} {w v : World α κ σ} (h : a w = b v) : a.after w = b.after v := by
  rw [after, h, after]

theorem Act.after_error {a : Act α κ σ β} {w v : World α κ σ} {e : Fault α} (h : a w = .error e v) :
    a.after w = v := by
  rw [after, h]

theorem Act.answer?_eq_some_iff {a : Act α κ σ β} {w : World α κ σ} {b : β} :
    a.answer? w = some b ↔ ∃ v, a w = .ok b v := by
  unfold answer?
  cases a w with
  | ok c v => simp
  | error f v => simp

theorem Act.answer?_eq_none_iff {a : Act α κ σ β} {w : World α κ σ} :
    a.answer? w = none ↔ ∃ e v, a w = .error e v := by
  unfold answer?
  cases a w with
  | ok c v => simp
  | error f v => simp

namespace World

theorem mem_alive_of_parentFault? {w : World α κ σ} {name : String} {parent : Option NodeId}
    (h : w.parentFault? name parent = none) (hk : w.knows parent = true) : ∀ p, parent = some p → w.isAlive p = true := by
  rintro p rfl
  simp only [knows, Option.all_some, Option.isSome_iff_exists] at hk
  obtain ⟨x, hx⟩ := hk
  refine isAlive_iff.2 ⟨x, hx, ?_⟩
  by_contra hd
  simp [parentFault?, hx, hd] at h

theorem parentFault?_eq_none {w : World α κ σ} {parent : Option NodeId} (hp : ∀ p, parent = some p → w.isAlive p = true)
    (name : String) : w.parentFault? name parent = none := by
  cases parent with
  | none => rfl
  | some p =>
    obtain ⟨x, hx, hl⟩ := isAlive_iff.1 (hp p rfl)
    simp [parentFault?, hx, hl]

theorem parentFault?_of_alive {w : World α κ σ} {n : NodeId} (h : w.isAlive n = true) (name : String) :
    w.parentFault? name (some n) = none := parentFault?_eq_none (fun _ hp => Option.some.inj hp ▸ h) name

/-! ## Creation -/

theorem step_modifyShape {f : Shape α κ → Shape α κ} (hn : ∀ x, (f x).node = x.node)
    (hr : ∀ x, (f x).rootKey = x.rootKey) (hg : ∀ x, (f x).generated = x.generated) (w : World α κ σ)
    (s : ShapeId) : Step w (w.modifyShape s f) := by
  refine .aside (sameScene_modifyShape hn hr w s) (fun t => ?_) rfl rfl
  rw [generatedBy, shape?_modifyShape, generatedBy]
  split_ifs
  · cases w.shape? t <;> simp [hg]
  · rfl

theorem step_note (w : World α κ σ) (e : Entry) (h : ∀ s n k, e ≠ .made s n k) : Step w (w.note e) := by
  refine .aside (sameScene_note w e) (fun _ => rfl) rfl ?_
  cases e with
  | made s n k => exact absurd rfl (h s n k)
  | tracked _ _ => simp [makings, note]
  | announced _ => simp [makings, note]
  | began _ => simp [makings, note]
  | finished _ => simp [makings, note]

/-- changes of two shapes can be made in either order -/
theorem modifyShape_comm (w : World α κ σ) {s t : ShapeId} (h : s ≠ t) (f g : Shape α κ → Shape α κ) :
    (w.modifyShape s f).modifyShape t g = (w.modifyShape t g).modifyShape s f := by
  have hs : (w.shapes.modify s f).modify t g = (w.shapes.modify t g).modify s f := by
    refine Array.ext (by simp) fun i h1 h2 => ?_
    simp only [Array.getElem_modify]
    by_cases hi : t = i
    · have hne : ¬ s = i := fun hc => h (hc.trans hi.symm)
      simp [hi, hne]
    · simp [hi]
  simp only [modifyShape, hs]

/-- a symbol can be entered on its creator's list before or after it is put on its node -/
theorem bind_take (w : World α κ σ) {creator s : ShapeId} (h : s ≠ creator) (n first : NodeId) (count : Nat)
    (rootKey : Option NodeId) :
    (w.take creator first count).bind s n rootKey = (w.bind s n rootKey).take creator first count := by
  have hmod (f g : Shape α κ → Shape α κ) (m : NodeId) (k : Node α → Node α) (e e' : Entry) :
      ((((w.note e).modifyShape creator f).note e').modifyShape s g).modifyNode m k =
        ((((w.modifyShape s g).modifyNode m k).note e).modifyShape creator f).note e' := by
    have hc := modifyShape_comm w h.symm f g
    simp only [modifyShape, World.mk.injEq] at hc
    cases m <;> simp [modifyNode, note, modifyShape, hc.2.2.2.2.1]
  simp only [take, track, bind, hmod]
  rfl

theorem modifyShape_self (w : World α κ σ) (s : ShapeId) {f : Shape α κ → Shape α κ} (hf : ∀ x, f x = x) :
    w.modifyShape s f = w := by
  have hshapes : w.shapes.modify s f = w.shapes := by
    refine Array.ext (by simp) fun i _ _ => ?_
    rw [Array.getElem_modify, hf, ite_self]
  rw [modifyShape, hshapes]

/-! ### What a creation does: it fails and nothing happens, or the new nodes come -/

theorem createNode_cases (name : String) (parent : Option NodeId) (pose : Pose α) (w : World α κ σ) :
    (∃ e, createNode name parent pose w = .error e w) ∨
      w.parentFault? name parent = none ∧
        createNode name parent pose w = .ok w.nextId (w.addNode name .empty parent pose none) := by
  unfold createNode
  cases w.parentFault? name parent with
  | some e => exact Or.inl ⟨e, rfl⟩
  | none => exact Or.inr ⟨rfl, rfl⟩

theorem instantiate_cases [Scalar α] (t : Template α) (parent : Option NodeId) (pose : Pose α) (w : World α κ σ) :
    (∃ e, instantiate t parent pose w = .error e w) ∨
      w.parentFault? t.displayName parent = none ∧
        instantiate t parent pose w = .ok w.nextId (w.plant t parent pose) := by
  unfold instantiate
  cases w.parentFault? t.displayName parent with
  | some e => exact Or.inl ⟨e, rfl⟩
  | none => exact Or.inr ⟨rfl, rfl⟩

/-- how a start symbol is made: nothing happens, or it gets a node, and then the source that it is to carry -/
theorem createRoot_cases (offer : KindOffer κ) (name : String) (parent : Option NodeId) (pose : Pose α)
    (source : Option SourceId) (w : World α κ σ) :
    (∃ e, createRoot offer name parent pose source w = .error e w) ∨
      ∃ kind, offer = .of kind ∧ w.parentFault? name parent = none ∧
        createRoot offer name parent pose source w = .ok w.shapes.size
          ((w.seat kind name parent pose none).modifyShape w.shapes.size fun x =>
            { x with components := x.components ++ source.toList.map .source }) := by
  unfold createRoot
  cases offer with
  | abstractKind shown => exact Or.inl ⟨_, rfl⟩
  | notAKind shown => exact Or.inl ⟨_, rfl⟩
  | unfit => exact Or.inl ⟨_, rfl⟩
  | of kind =>
    cases hp : w.parentFault? name parent with
    | some e => exact Or.inl ⟨e, rfl⟩
    | none =>
      refine Or.inr ⟨kind, rfl, rfl, ?_⟩
      cases source with
      | none => rw [modifyShape_self _ _ fun x => by simp]; rfl
      | some i => rfl

/-- how a symbol is placed: nothing happens, or it gets a node and is entered as made by its creator -/
theorem placeSymbol_cases [SymbolKind κ] (creator : ShapeId) (offer : KindOffer κ) (name : String)
    (parent : Option NodeId) (pose : Pose α) (w : World α κ σ) :
    (∃ e, placeSymbol creator offer name parent pose w = .error e w) ∨
      ∃ own rootKey kind, w.homeOf creator = some own ∧ w.rootKeyOf creator = .ok rootKey ∧ offer = .of kind ∧
        w.parentFault? name (some (parent.getD own)) = none ∧
        placeSymbol creator offer name parent pose w = .ok w.shapes.size
          ((w.seat kind name (some (parent.getD own)) pose (some rootKey)).take creator w.nextId 1) := by
  unfold placeSymbol
  cases hrefuse : offer.refusal? with
  | some e => exact Or.inl ⟨e, rfl⟩
  | none =>
    cases hown : w.nodeOf creator with
    | error e => exact Or.inl ⟨_, rfl⟩
    | ok own =>
      have hhome := nodeOf_eq_ok_iff.1 hown
      cases hkey : w.rootKeyOf creator with
      | error e => exact Or.inl ⟨_, rfl⟩
      | ok rootKey =>
        cases offer with
        | abstractKind shown => simp [KindOffer.refusal?] at hrefuse
        | notAKind shown => simp [KindOffer.refusal?] at hrefuse
        | unfit => exact Or.inl ⟨_, rfl⟩
        | of kind =>
          cases hp : w.parentFault? name (some (parent.getD own)) with
          | some e => exact Or.inl ⟨e, by simp only [hp, KindOffer.kind?]⟩
          | none =>
            refine Or.inr ⟨own, rootKey, kind, hhome, rfl, rfl, hp, ?_⟩
            simp only [hp, KindOffer.kind?]
            rw [seat, ← bind_take _ (lt_size_of_homeOf hhome).ne']
            rfl

/-- how a terminal is made: nothing happens, or a copy of the template is entered as made by its creator -/
theorem spawn_cases [Scalar α] [SymbolKind κ] (creator : ShapeId) (template : TemplateRef α) (parent : Option NodeId)
    (pose : Pose α) (w : World α κ σ) :
    (∃ e, spawn creator template parent pose w = .error e w) ∨
      ∃ own t, w.homeOf creator = some own ∧ w.resolve template = .ok t ∧
        w.parentFault? t.displayName (some (parent.getD own)) = none ∧
        spawn creator template parent pose w =
          .ok w.nextId ((w.plant t (some (parent.getD own)) pose).take creator w.nextId t.size) := by
  unfold spawn
  cases hown : w.nodeOf creator with
  | error e => exact Or.inl ⟨_, rfl⟩
  | ok own =>
    dsimp only
    cases w.resolve template with
    | error e => exact Or.inl ⟨e, rfl⟩
    | ok t =>
      dsimp only
      cases hp : w.parentFault? t.displayName (some (parent.getD own)) with
      | some e => exact Or.inl ⟨e, rfl⟩
      | none => exact Or.inr ⟨own, t, nodeOf_eq_ok_iff.1 hown, rfl, hp, rfl⟩

/-! ### Creations as steps -/

theorem createNode_steps {w : World α κ σ} {parent : Option NodeId} (hk : w.knows parent = true) (name : String)
    (pose : Pose α) : Steps w ((createNode name parent pose).after w) := by
  rcases createNode_cases name parent pose w with ⟨e, hr⟩ | ⟨hp, hr⟩
  · rw [Act.after_error hr]
  · rw [Act.after_ok hr]
    exact .single (.node name .empty parent pose none (mem_alive_of_parentFault? hp hk))

theorem instantiate_steps [Scalar α] {w : World α κ σ} {parent : Option NodeId} (hk : w.knows parent = true)
    (t : Template α) (pose : Pose α) : Steps w ((instantiate t parent pose).after w) := by
  rcases instantiate_cases t parent pose w with ⟨e, hr⟩ | ⟨hp, hr⟩
  · rw [Act.after_error hr]
  · rw [Act.after_ok hr]
    exact (planted_plant t w parent pose (mem_alive_of_parentFault? hp hk)).steps

theorem createRoot_steps {w : World α κ σ} {parent : Option NodeId} (hk : w.knows parent = true)
    (offer : KindOffer κ) (name : String) (pose : Pose α) (source : Option SourceId) :
    Steps w ((createRoot offer name parent pose source).after w) := by
  rcases createRoot_cases offer name parent pose source w with ⟨e, hr⟩ | ⟨kind, -, hp, hr⟩
  · rw [Act.after_error hr]
  · rw [Act.after_ok hr]
    refine (Relation.ReflTransGen.single (.root kind name parent pose (mem_alive_of_parentFault? hp hk))).tail ?_
    exact step_modifyShape (f := fun x => { x with components := x.components ++ source.toList.map .source })
      (fun _ => rfl) (fun _ => rfl) (fun _ => rfl) _ _

/-- a living node, or a parent that is known in its place, is alive when nothing speaks against hanging something there -/
theorem parent_alive_of_knows {w : World α κ σ} {own : NodeId} {parent : Option NodeId} {name : String}
    (hl : w.isAlive own = true) (hk : w.knows parent = true)
    (hp : w.parentFault? name (some (parent.getD own)) = none) :
    ∀ p, some (parent.getD own) = some p → w.isAlive p = true := by
  refine mem_alive_of_parentFault? hp ?_
  cases parent with
  | none =>
    obtain ⟨x, hx, -⟩ := isAlive_iff.1 hl
    simp [knows, hx]
  | some p => exact hk

theorem rootKeyOf_eq [SymbolKind κ] {w : World α κ σ} {s : ShapeId} {n : NodeId} (hn : w.homeOf s = some n) :
    w.rootKeyOf s = .ok ((w.rootKeyAt s).getD n) := by
  unfold rootKeyOf rootKeyAt
  cases (w.shape? s).bind (·.rootKey) with
  | none => exact nodeOf_eq_ok_iff.2 hn
  | some k => rfl

theorem placeSymbol_steps [SymbolKind κ] {w : World α κ σ} {creator : ShapeId} {parent : Option NodeId}
    (hc : w.shapeAlive creator = true) (hk : w.knows parent = true) (offer : KindOffer κ) (name : String)
    (pose : Pose α) : Steps w ((placeSymbol creator offer name parent pose).after w) := by
  rcases placeSymbol_cases creator offer name parent pose w with ⟨e, hr⟩ | ⟨own, key, kind, ho, hkey, -, hp, hr⟩
  · rw [Act.after_error hr]
  · rw [Act.after_ok hr]
    obtain ⟨n, hn, hl⟩ := shapeAlive_iff.1 hc
    obtain rfl : own = n := Option.some.inj (ho.symm.trans hn)
    obtain rfl : key = (w.rootKeyAt creator).getD own := Except.ok.inj (hkey.symm.trans (rootKeyOf_eq ho))
    exact .single (.symbol kind name _ pose ho hl (parent_alive_of_knows hl hk hp))

theorem spawn_steps [Scalar α] [SymbolKind κ] {w : World α κ σ} {creator : ShapeId} {parent : Option NodeId}
    (hc : w.shapeAlive creator = true) (hk : w.knows parent = true) (template : TemplateRef α) (pose : Pose α) :
    Steps w ((spawn creator template parent pose).after w) := by
  rcases spawn_cases creator template parent pose w with ⟨e, hr⟩ | ⟨own, t, ho, -, hp, hr⟩
  · rw [Act.after_error hr]
  · rw [Act.after_ok hr]
    obtain ⟨n, hn, hl⟩ := shapeAlive_iff.1 hc
    obtain rfl : own = n := Option.some.inj (ho.symm.trans hn)
    have hpar := parent_alive_of_knows hl hk hp
    have hplant := planted_plant t w (some (parent.getD own)) pose hpar
    have hhome : (w.plant t (some (parent.getD own)) pose).homeOf creator = some own := by
      rw [hplant.rest]
      exact hn
    refine hplant.steps.tail (.take hhome (hplant.kept own hl) ?_ ?_ ?_ hplant.bare ?_)
    · exact Nat.lt_succ_of_le (le_size_of_isAlive hl)
    · refine hplant.alive _ (Nat.lt_succ_self _) ?_
      rw [hplant.size]
      exact Nat.add_le_add_left t.size_pos _
    · rw [nextId, nextId, hplant.size]
      exact Nat.add_right_comm _ _ _
    · exact fun m => plant_inside t w _ pose hpar m

/-! ## Ends -/

theorem after_destroy (w : World α κ σ) (n : NodeId) :
    (destroy n).after w = (destroyWithin w.teardownBound n w).1 := by
  unfold Act.after destroy
  rcases destroyWithin w.teardownBound n w with ⟨v, _ | fault⟩ <;> rfl

theorem destroy_kills {w : World α κ σ} (h : Tame w) (n : NodeId) :
    ∃ d c, KillsFrom w ((destroy n).after w) [n] [] d c := by
  rw [after_destroy]
  exact destroy_killsFrom h n

theorem destroy_steps {w : World α κ σ} (h : Sound w) (n : NodeId) : Steps w ((destroy n).after w) := by
  obtain ⟨d, c, hf⟩ := destroy_kills h.toTame n
  exact .single (.kills hf.toKills)

/-- what each end leads to, a whole teardown leads to, also where it stops early -/
theorem destroyAll_leads {R : World α κ σ → World α κ σ → Prop} (refl : ∀ w, R w w)
    (trans : ∀ {w v u}, R w v → R v u → R w u) (hone : ∀ n w, R w ((destroy n).after w)) (ns : List NodeId)
    (w : World α κ σ) : R w ((destroyAll ns).after w) := by
  induction ns generalizing w with
  | nil => exact refl w
  | cons n ns ih =>
    have hn := hone n w
    unfold Act.after destroyAll
    cases hd : destroy n w with
    | error e v => exact Act.after_error hd ▸ hn
    | ok _ v => exact trans (Act.after_ok hd ▸ hn) (ih v)

theorem destroyAll_steps (ns : List NodeId) {w : World α κ σ} (h : Sound w) : Steps w ((destroyAll ns).after w) :=
  destroyAll_leads (R := fun w v => Sound w → Steps w v) (fun _ _ => .refl)
    (fun h₁ h₂ h => (h₁ h).trans (h₂ ((h₁ h).sound h))) (fun n _ h => destroy_steps h n) ns w h

/-- if nobody objects, everything reached from the nodes is dead -/
theorem destroyAll_killsFrom (ns : List NodeId) {w v : World α κ σ} (h : Tame w) (hv : destroyAll ns w = .ok () v) :
    ∃ d c, KillsFrom w v ns [] d c := by
  induction ns generalizing w with
  | nil =>
    obtain rfl : w = v := by simpa [destroyAll] using hv
    exact ⟨[], [], KillsFrom.refl w [] (by simp)⟩
  | cons n ns ih =>
    rw [destroyAll] at hv
    obtain ⟨d, c, hf⟩ := destroy_kills h n
    cases hd : destroy n w with
    | error e u => simp [hd] at hv
    | ok _ u =>
      simp only [hd] at hv
      rw [Act.after_ok hd] at hf
      obtain ⟨e, k, hg⟩ := ih (hf.toKills.tame h) hv
      exact ⟨d ++ e, c ++ k, hf.trans hg⟩

/-- where the registry lists the living, each of them is reached from a root -/
theorem Linked.reach_root {w : World α κ σ} (h : Linked w) (hr : ∀ n, n ∈ w.registry ↔ w.isAlive n = true) (n : NodeId)
    (hl : w.isAlive n = true) : ∃ r ∈ w.roots, Reach w r n := by
  induction n using Nat.strong_induction_on with
  | _ n ih =>
    cases hp : w.parentOf n with
    | none =>
      refine ⟨n, ?_, .refl hl⟩
      obtain ⟨x, hx, -⟩ := isAlive_iff.1 hl
      have hpar : x.parent = none := by simpa [parentOf, hx] using hp
      rw [roots, List.mem_filter, liveNodes, List.mem_reverse, hr]
      exact ⟨hl, by simp [hx, hpar]⟩
    | some p =>
      obtain ⟨-, hlp, hlt⟩ := h.parent_alive n p hp
      obtain ⟨r, hroot, hrp⟩ := ih p hlt hlp
      exact ⟨r, hroot, hrp.trans (.step hlp (mem_successors.2 (Or.inl ((h.mem_children n p).2 hp))) (.refl hl))⟩

theorem step_agenda {w : World α κ σ} {a : Agenda α} (h : Sound { w with agenda := a }) :
    Step w { w with agenda := a } := .agenda h.agenda_sound h.planned

theorem clear_steps {w : World α κ σ} (h : Sound w) : Steps w (clear.after w) := by
  have hv := h.clearAgenda
  have hstep := step_agenda hv
  generalize hw : { w with agenda := w.agenda.clear } = v at hv hstep
  have hsteps := destroyAll_steps v.roots hv
  unfold Act.after clear clearScene
  rw [hw]
  cases hd : destroyAll v.roots v with
  | error e u =>
    rw [Act.after_error hd] at hsteps
    exact .head hstep hsteps
  | ok _ u =>
    rw [Act.after_ok hd] at hsteps
    have hu := hsteps.sound hv
    obtain ⟨d, c, hf⟩ := destroyAll_killsFrom v.roots hv.toTame hd
    -- nothing lives any more, so nothing is registered any more
    have hnone (n : NodeId) : ¬ u.isAlive n = true := by
      intro hl
      obtain ⟨hlv, hnd⟩ := (hf.torn.isAlive n).1 hl
      exact hnd ((hf.mem_dead_iff n).2 (hv.toTame.linked.reach_root hv.registered n hlv))
    have hbound : u.bound = [] := by
      refine List.eq_nil_iff_forall_not_mem.2 fun p hp => hnone p.1 ?_
      exact ((hu.mem_bound p.1 p.2).1 hp).1
    have heq : { u with bound := [] } = u := by rw [← hbound]
    simp only [heq]
    exact .head hstep hsteps

/-- a deletion empties the shape's list, if it does anything -/
theorem deleteGenerated_after [SymbolKind κ] (w : World α κ σ) (s : ShapeId) :
    (deleteGenerated s).after w = w ∨ (deleteGenerated s).after w = w.cleanWithin w.teardownBound s := by
  unfold Act.after deleteGenerated
  cases (w.shape? s).bind (·.generated) with
  | none => exact .inl rfl
  | some gs =>
    cases w.inContext s with
    | error e => exact .inl rfl
    | ok _ => exact .inr rfl

/-- a deletion does not fail, kills what is reached from the shape's list, and leaves the list empty -/
theorem deleteGenerated_killsFrom [SymbolKind κ] {w : World α κ σ} (h : Sound w) (s : ShapeId) :
    ∃ v d c, deleteGenerated s w = .ok () v ∧ KillsFrom w v (w.generatedBy s) [s] d c ∧ v.generatedBy s = [] := by
  unfold deleteGenerated
  cases hg : (w.shape? s).bind (·.generated) with
  | none =>
    have hnil : w.generatedBy s = [] := by simp [generatedBy, hg]
    refine ⟨w, [], [], rfl, KillsFrom.refl w [s] ?_, hnil⟩
    simp [hnil]
  | some gs =>
    obtain ⟨x, hx, -⟩ := Option.bind_eq_some_iff.1 hg
    obtain ⟨n, hn⟩ := h.housed s (lt_size_of_shape? hx)
    rw [inContext_eq hn]
    obtain ⟨d, c, hf, hnil⟩ := clean_killsFrom h.toTame s
    exact ⟨_, d, c, rfl, hf, hnil⟩

theorem deleteGenerated_steps [SymbolKind κ] {w : World α κ σ} (h : Sound w) (s : ShapeId) :
    Steps w ((deleteGenerated s).after w) := by
  obtain ⟨v, d, c, hv, hf, -⟩ := deleteGenerated_killsFrom h s
  rw [Act.after_ok hv]
  exact .single (.kills hf.toKills)

/-- a living shape survives the deletion of what it has generated -/
theorem KillsFrom.shapeAlive {w v : World α κ σ} (t : Tame w) {s : ShapeId} {d : List NodeId} {c : List ShapeId}
    (hf : KillsFrom w v (w.generatedBy s) [s] d c) (hs : w.shapeAlive s = true) : v.shapeAlive s = true := by
  obtain ⟨n, hn, hl⟩ := shapeAlive_iff.1 hs
  refine shapeAlive_iff.2 ⟨n, (hf.torn.homeOf s).trans hn, (hf.torn.isAlive n).2 ⟨hl, ?_⟩⟩
  exact hf.notMem_of_lt t fun g hg => t.newer s n hn g hg

/-! ## Expansion -/

theorem markExpanded_steps (w : World α κ σ) (s : ShapeId) : Steps w (w.markExpanded s) := by
  refine .head (step_modifyShape (f := fun x => { x with state := .expanded }) (fun _ => rfl) (fun _ => rfl)
    (fun _ => rfl) w s) ?_
  exact .single (step_note _ _ (by simp))

/-! ## Surroundings -/

/-- what belongs to no node, shape or appointment may be anything -/
theorem step_elsewhere (w : World α κ σ) {sources : Array RandomSource} {ambient : SourceId} {entropy : Entropy}
    {templates : TemplateLibrary α} {eager live : Bool} {listeners : List (Node α → Option (Fault α))}
    {warnings : Array Warning} {desk : Desk α} {user : σ} :
    Step w { w with sources, ambient, entropy, templates, eager, live, listeners, warnings, desk, user } :=
  .aside ⟨rfl, rfl, rfl, rfl, rfl, fun _ => rfl, fun _ => rfl, rfl⟩ (fun _ => rfl) rfl rfl

/-- starting the draws of a source again touches no more than this source -/
theorem reseed_after (w : World α κ σ) (i : SourceId) (seed : Option Int) :
    (reseed i seed).after w = w ∨ ∃ r e, (reseed i seed).after w = w.setSource i r e := by
  unfold Act.after reseed
  cases w.sources[i]? with
  | none => exact .inl rfl
  | some r => exact .inr ⟨_, _, rfl⟩

/-- a draw for a symbol touches no more than the source of the symbol -/
theorem randomInt_after [SymbolKind κ] (w : World α κ σ) (s : ShapeId) (low high : Int) :
    (randomInt s low high).after w = w ∨
      ∃ i r e, w.sourceOf s = .ok i ∧ (randomInt s low high).after w = w.setSource i r e := by
  unfold Act.after randomInt
  cases w.sourceOf s with
  | error e => exact .inl rfl
  | ok i =>
    dsimp only
    cases w.sources[i]? with
    | none => exact .inl rfl
    | some r =>
      dsimp only
      rcases r.nextInt low high w.entropy with ⟨x | x, r', e⟩ <;> exact .inr ⟨i, r', e, rfl, rfl⟩

theorem randomFraction_after [SymbolKind κ] (w : World α κ σ) (s : ShapeId) :
    (randomFraction s).after w = w ∨
      ∃ i r e, w.sourceOf s = .ok i ∧ (randomFraction s).after w = w.setSource i r e := by
  unfold Act.after randomFraction
  cases w.sourceOf s with
  | error e => exact .inl rfl
  | ok i =>
    dsimp only
    cases w.sources[i]? with
    | none => exact .inl rfl
    | some r => exact .inr ⟨i, _, _, rfl, rfl⟩

/-- to plan is to add an appointment of a shape at its node, in place of another one there -/
theorem schedule_cases [Scalar α] [SymbolKind κ] (w : World α κ σ) (s : ShapeId) (delay : α) :
    (schedule s delay).after w = w ∨
      ∃ n, w.homeOf s = some n ∧ (schedule s delay).after w = { w with agenda := w.agenda.schedule n s delay } := by
  unfold Act.after schedule
  split_ifs
  · exact .inl rfl
  · cases hn : w.nodeOf s with
    | error e => exact .inl rfl
    | ok n => exact .inr ⟨n, nodeOf_eq_ok_iff.1 hn, rfl⟩

theorem reseed_steps (w : World α κ σ) (i : SourceId) (seed : Option Int) : Steps w ((reseed i seed).after w) := by
  rcases reseed_after w i seed with h | ⟨r, e, h⟩ <;> rw [h]
  exact .single (step_elsewhere w)

theorem randomInt_steps [SymbolKind κ] (w : World α κ σ) (s : ShapeId) (low high : Int) :
    Steps w ((randomInt s low high).after w) := by
  rcases randomInt_after w s low high with h | ⟨i, r, e, -, h⟩ <;> rw [h]
  exact .single (step_elsewhere w)

theorem randomFraction_steps [SymbolKind κ] (w : World α κ σ) (s : ShapeId) :
    Steps w ((randomFraction s).after w) := by
  rcases randomFraction_after w s with h | ⟨i, r, e, -, h⟩ <;> rw [h]
  exact .single (step_elsewhere w)

/-! ## Expansion asked for by delay -/

variable [Scalar α] [SymbolKind κ] {expand : ShapeId → Act α κ σ Unit}

/-- an expansion asked for now or later starts from a world in which the shape has generated nothing -/
theorem generate_eq {w : World α κ σ} (h : Sound w) {s : ShapeId} (hs : w.shapeAlive s = true) {delay : α}
    (hd : ¬ delay < Scalar.zero) :
    ∃ v d c n, KillsFrom w v (w.generatedBy s) [s] d c ∧ v.generatedBy s = [] ∧ w.homeOf s = some n ∧
      generate expand s delay w =
        if delay == Scalar.zero || !v.live then runExpansion expand s { v with agenda := (v.agenda.cancel n).2 }
        else schedule s delay { v with agenda := (v.agenda.cancel n).2 } := by
  obtain ⟨v, d, c, hv, hf, hnil⟩ := deleteGenerated_killsFrom h s
  obtain ⟨n, hn, -⟩ := shapeAlive_iff.1 hs
  refine ⟨v, d, c, n, hf, hnil, hn, ?_⟩
  unfold generate
  simp only [if_neg hd, hv, nodeOf_eq_ok_iff.2 ((hf.torn.homeOf s).trans hn)]

/-! ## The loop of an advance -/

section

omit [SymbolKind κ]

variable {w : World α κ σ} {passes : Nat} {done : List ShapeId} {x : Appointment α} {a : Agenda α}

theorem runDue_none (hp : w.agenda.popDue = none) : runDue expand passes done w = .ok done.reverse w := by
  unfold runDue
  rw [hp]

theorem runDue_zero (hp : w.agenda.popDue = some (x, a)) : runDue expand 0 done w = .error .tooLong w := by
  unfold runDue
  rw [hp]

theorem runDue_cancelled (hp : w.agenda.popDue = some (x, a)) (hc : x.cancelled = true) :
    runDue expand (passes + 1) done w = runDue expand passes done { w with agenda := a } := by
  conv_lhs => unfold runDue
  simp only [hp]
  exact if_pos hc

theorem runDue_dropped (hp : w.agenda.popDue = some (x, a)) (hc : x.cancelled = false)
    (hdead : ¬ w.shapeAlive x.shape = true) :
    runDue expand (passes + 1) done w = runDue expand passes done { w with agenda := a.settle x.node } := by
  conv_lhs => unfold runDue
  simp only [hp]
  exact (if_neg (by simp [hc])).trans (if_neg hdead)

theorem runDue_run (hp : w.agenda.popDue = some (x, a)) (hc : x.cancelled = false)
    (halive : w.shapeAlive x.shape = true) {v : World α κ σ}
    (hr : runExpansion expand x.shape { w with agenda := a.settle x.node } = .ok () v) :
    runDue expand (passes + 1) done w = runDue expand passes (x.shape :: done) v := by
  conv_lhs => unfold runDue
  simp only [hp]
  refine (if_neg (by simp [hc])).trans ((if_pos halive).trans ?_)
  rw [hr]

theorem runDue_failed (hp : w.agenda.popDue = some (x, a)) (hc : x.cancelled = false)
    (halive : w.shapeAlive x.shape = true) {e : Fault α} {v : World α κ σ}
    (hr : runExpansion expand x.shape { w with agenda := a.settle x.node } = .error e v) :
    runDue expand (passes + 1) done w = .error e v := by
  conv_lhs => unfold runDue
  simp only [hp]
  refine (if_neg (by simp [hc])).trans ((if_pos halive).trans ?_)
  rw [hr]

end

end World

end SceneGrammar
