/-
What the operations of a world do to its agenda, and what they do not.

`rebook` gives a world another agenda. Nothing that is looked up or changed in a scene reads the agenda
(`node?_rebook` and the lemmas after it), and the only change of it that a scene asks for is to drop the appointment of a
node that ends and carries a shape.

`OnlyCancels`: what a teardown does is to announce some ends, to drop the appointments that go with them (`cancelAll`),
and nothing more that depends on the agenda. `onlyCancels_within` proves it of every teardown, also of one that goes
wrong or runs out of its bound.
-/
import SceneGrammar.Proofs.Teardown.Closure

namespace SceneGrammar

variable {α κ σ β γ : Type}

/-- the node whose end an entry tells of -/
def Entry.ended? : Entry → Option NodeId
  | .announced n => some n
  | _ => none

/-- the nodes that have ended, by a record -/
def endedIn (es : List Entry) : List NodeId := es.filterMap Entry.ended?

@[simp] theorem endedIn_announced (dead : List NodeId) : endedIn (dead.map Entry.announced) = dead := by
  simp [endedIn, List.filterMap_map, Function.comp_def, Entry.ended?]

namespace World

/-! ## Worlds with another agenda -/

/-- the world with another agenda -/
def rebook (w : World α κ σ) (c : Agenda α) : World α κ σ := { w with agenda := c }

section

variable (w : World α κ σ) (c : Agenda α)

@[simp] theorem journal_rebook : (w.rebook c).journal = w.journal := rfl

@[simp] theorem rebook_rebook (d : Agenda α) : (w.rebook c).rebook d = w.rebook d := rfl

@[simp] theorem rebook_agenda : w.rebook w.agenda = w := rfl

@[simp] theorem node?_rebook (n : NodeId) : (w.rebook c).node? n = w.node? n := by cases n <;> rfl

@[simp] theorem isAlive_rebook (n : NodeId) : (w.rebook c).isAlive n = w.isAlive n := by simp [isAlive]

@[simp] theorem children_rebook (n : NodeId) : (w.rebook c).children n = w.children n := by simp [children]

@[simp] theorem shape?_rebook (s : ShapeId) : (w.rebook c).shape? s = w.shape? s := rfl

@[simp] theorem shapeOn?_rebook (n : NodeId) : (w.rebook c).shapeOn? n = w.shapeOn? n := by simp [shapeOn?]

@[simp] theorem shapeAlive_rebook (s : ShapeId) : (w.rebook c).shapeAlive s = w.shapeAlive s := by
  simp only [shapeAlive, shape?_rebook, funext (isAlive_rebook w c)]

@[simp] theorem parentFault?_rebook (name : String) (parent : Option NodeId) :
    (w.rebook c).parentFault? name parent = w.parentFault? name parent := by
  simp only [parentFault?, funext (node?_rebook w c)]

@[simp] theorem objection?_rebook (n : NodeId) : (w.rebook c).objection? n = w.objection? n := by
  simp only [objection?, node?_rebook]
  rfl

@[simp] theorem ownerName_rebook (s : ShapeId) : (w.rebook c).ownerName s = w.ownerName s := by
  simp only [ownerName, shape?_rebook, funext (node?_rebook w c)]

@[simp] theorem modifyNode_rebook (n : NodeId) (f : Node α → Node α) :
    (w.rebook c).modifyNode n f = (w.modifyNode n f).rebook c := by cases n <;> rfl

@[simp] theorem hang_rebook (n p : NodeId) : (w.rebook c).hang n p = (w.hang n p).rebook c := by simp [hang]

@[simp] theorem detach_rebook (n : NodeId) : (w.rebook c).detach n = (w.detach n).rebook c := by
  simp only [detach, node?_rebook]
  cases (w.node? n).bind (·.parent) <;> simp

@[simp] theorem reparent_rebook (n : NodeId) (parent : Option NodeId) :
    (w.rebook c).reparent n parent = (w.reparent n parent).rebook c := by cases parent <;> simp [reparent]

@[simp] theorem addNode_rebook (name : String) (kind : NodeKind) (parent : Option NodeId) (pose : Pose α)
    (template : Option String) :
    (w.rebook c).addNode name kind parent pose template = (w.addNode name kind parent pose template).rebook c := by
  cases parent with
  | none => rfl
  | some p => cases p <;> rfl

@[simp] theorem bury_rebook (n : NodeId) : (w.rebook c).bury n = (w.bury n).rebook c := by
  simp only [bury, detach_rebook, modifyNode_rebook]
  rfl

@[simp] theorem addShape_rebook (kind : κ) : (w.rebook c).addShape kind = (w.addShape kind).rebook c := rfl

@[simp] theorem bind_rebook (s : ShapeId) (n : NodeId) (rootKey : Option NodeId) :
    (w.rebook c).bind s n rootKey = (w.bind s n rootKey).rebook c := by cases n <;> rfl

@[simp] theorem note_rebook (e : Entry) : (w.rebook c).note e = (w.note e).rebook c := rfl

@[simp] theorem warnCleanup_rebook (s : ShapeId) (n : NodeId) :
    (w.rebook c).warnCleanup s n = (w.warnCleanup s n).rebook c := by
  simp only [warnCleanup, node?_rebook, ownerName_rebook]
  cases w.node? n <;> rfl

@[simp] theorem takeGenerated_rebook (s : ShapeId) : (w.rebook c).takeGenerated s = (w.takeGenerated s).rebook c := rfl

@[simp] theorem markCleared_rebook (s : ShapeId) : (w.rebook c).markCleared s = (w.markCleared s).rebook c := rfl

@[simp] theorem track_rebook (s : ShapeId) (n : NodeId) : (w.rebook c).track s n = (w.track s n).rebook c := rfl

end

theorem cancelAll_append (w : World α κ σ) (d e : List NodeId) (c : Agenda α) :
    w.cancelAll (d ++ e) c = w.cancelAll e (w.cancelAll d c) := by simp [cancelAll]

theorem cancelAll_congr {w v : World α κ σ} (h : ∀ m, v.shapeOn? m = w.shapeOn? m) (d : List NodeId) (c : Agenda α) :
    v.cancelAll d c = w.cancelAll d c := by simp only [cancelAll, h]

/-! ## Teardowns -/

/-- what a teardown does that yields a value: some nodes end, their appointments are dropped, and the value, what
surrounds the scene and the shapes on the nodes depend on no appointment -/
structure OnlyCancels (f : World α κ σ → World α κ σ × β) (w : World α κ σ) (dead : List NodeId) : Prop where
  journal : (f w).1.journal.toList = w.journal.toList ++ dead.map Entry.announced
  carries : ∀ m, (f w).1.shapeOn? m = w.shapeOn? m
  surroundings : (f w).1.surroundings = w.surroundings
  rebook : ∀ c, f (w.rebook c) = ((f w).1.rebook (w.cancelAll dead c), (f w).2)

section

variable {w : World α κ σ} {f : World α κ σ → World α κ σ × β} {d e : List NodeId}

/-- one teardown after another, which may depend on the value of the first -/
theorem OnlyCancels.andThen {k : β → World α κ σ → World α κ σ × γ} (h : OnlyCancels f w d)
    (i : OnlyCancels (k (f w).2) (f w).1 e) : OnlyCancels (fun w => k (f w).2 (f w).1) w (d ++ e) where
  journal := by rw [i.journal, h.journal, List.map_append, List.append_assoc]
  carries m := (i.carries m).trans (h.carries m)
  surroundings := i.surroundings.trans h.surroundings
  rebook c := by
    have hstep := i.rebook (w.cancelAll d c)
    simp only [h.rebook c, hstep, cancelAll_congr h.carries, cancelAll_append]

/-- a change of a scene that ends nothing -/
theorem onlyCancels_of_rebook (hjournal : (f w).1.journal = w.journal) (hcarries : ∀ m, (f w).1.shapeOn? m = w.shapeOn? m)
    (hsur : (f w).1.surroundings = w.surroundings) (hrebook : ∀ c, f (w.rebook c) = ((f w).1.rebook c, (f w).2)) :
    OnlyCancels f w [] where
  journal := by simp [hjournal]
  carries := hcarries
  surroundings := hsur
  rebook := hrebook

theorem OnlyCancels.congr {k : World α κ σ → World α κ σ × β} (h : OnlyCancels k w d)
    (hk : ∀ c, f (w.rebook c) = k (w.rebook c)) : OnlyCancels f w d := by
  have hself : f w = k w := hk w.agenda
  refine ⟨?_, ?_, ?_, fun c => ?_⟩
  · rw [hself]; exact h.journal
  · rw [hself]; exact h.carries
  · rw [hself]; exact h.surroundings
  · rw [hself, hk]; exact h.rebook c

/-- the value may be read in another way -/
theorem OnlyCancels.value (h : OnlyCancels f w d) (k : β → γ) : OnlyCancels (fun w => ((f w).1, k (f w).2)) w d :=
  ⟨h.journal, h.carries, h.surroundings, fun c => by rw [h.rebook c]⟩

/-- the value may be read off the world that is left -/
theorem OnlyCancels.observe (h : OnlyCancels f w d) (k : World α κ σ → γ) (hk : ∀ v c, k (v.rebook c) = k v) :
    OnlyCancels (fun w => ((f w).1, k (f w).1)) w d :=
  ⟨h.journal, h.carries, h.surroundings, fun c => by simp only [h.rebook c, hk]⟩

theorem OnlyCancels.refl (b : β) (w : World α κ σ) : OnlyCancels (fun w => (w, b)) w [] :=
  onlyCancels_of_rebook rfl (fun _ => rfl) rfl fun _ => rfl

/-- a teardown of every node on a list, with a value that is carried along -/
theorem OnlyCancels.foldl {k : World α κ σ × β → NodeId → World α κ σ × β}
    (h : ∀ w b n, ∃ dead, OnlyCancels (fun w => k (w, b) n) w dead) (ns : List NodeId) (w : World α κ σ) (b : β) :
    ∃ dead, OnlyCancels (fun w => ns.foldl k (w, b)) w dead := by
  induction ns generalizing w b with
  | nil => exact ⟨[], OnlyCancels.refl b w⟩
  | cons n ns ih =>
    obtain ⟨d, hd⟩ := h w b n
    obtain ⟨e, he⟩ := ih (k (w, b) n).1 (k (w, b) n).2
    exact ⟨d ++ e, hd.andThen (k := fun b w => ns.foldl k (w, b)) he⟩

/-- the end of one node is announced, and its appointment dropped if it carries a shape -/
theorem OnlyCancels.announce (b : β) (w : World α κ σ) (n : NodeId) : OnlyCancels (fun w => (w.announce n, b)) w [n] where
  journal := by simp [announce_eq]
  carries m := by
    rw [announce_eq]
    rfl
  surroundings := by
    rw [announce_eq]
    rfl
  rebook c := by
    rw [announce_eq, announce_eq, shapeOn?_rebook]
    rfl

theorem shapeOn?_bury (w : World α κ σ) (n m : NodeId) : (w.bury n).shapeOn? m = w.shapeOn? m := by
  rw [shapeOn?, node?_bury, shapeOn?]
  cases w.node? m <;> rfl

theorem OnlyCancels.bury (b : β) (w : World α κ σ) (n : NodeId) : OnlyCancels (fun w => (w.bury n, b)) w [] :=
  onlyCancels_of_rebook (by rw [bury_eq]) (shapeOn?_bury w n) (by rw [bury_eq]; rfl) fun c => by rw [bury_rebook]

theorem OnlyCancels.warnCleanup (b : β) (w : World α κ σ) (s : ShapeId) (n : NodeId) :
    OnlyCancels (fun w => (w.warnCleanup s n, b)) w [] := by
  have hwarn : ∃ x, w.warnCleanup s n = { w with warnings := x } := by
    unfold World.warnCleanup
    cases w.node? n with
    | none => exact ⟨_, rfl⟩
    | some x => exact ⟨_, rfl⟩
  obtain ⟨x, hx⟩ := hwarn
  exact onlyCancels_of_rebook (by rw [hx]) (fun m => by rw [hx]; rfl) (surroundings_warnCleanup w s n) fun c => by
    rw [warnCleanup_rebook]

end

/-- destroying within a bound -/
def DestroyOnlyCancels (α κ σ : Type) (depth : Nat) : Prop :=
  ∀ (w : World α κ σ) (n : NodeId), ∃ dead, OnlyCancels (destroyWithin depth n) w dead

/-- cleaning within a bound -/
def CleanOnlyCancels (α κ σ : Type) (depth : Nat) : Prop :=
  ∀ (w : World α κ σ) (s : ShapeId), ∃ dead, OnlyCancels (fun w => (cleanWithin depth s w, ())) w dead

theorem cleanAt_none {depth : Nat} {w : World α κ σ} {n : NodeId} (h : w.shapeOn? n = none) : cleanAt depth n w = w := by
  rw [cleanAt, h]

theorem cleanAt_some {depth : Nat} {w : World α κ σ} {n : NodeId} {s : ShapeId} (h : w.shapeOn? n = some s) :
    cleanAt depth n w = cleanWithin depth s w := by
  rw [cleanAt, h]

theorem cleanAt_onlyCancels {depth : Nat} (ih : CleanOnlyCancels α κ σ depth) (w : World α κ σ) (n : NodeId) :
    ∃ dead, OnlyCancels (fun w => (cleanAt depth n w, ())) w dead := by
  cases hs : w.shapeOn? n with
  | none =>
    refine ⟨[], (OnlyCancels.refl () w).congr fun c => ?_⟩
    rw [cleanAt_none ((shapeOn?_rebook w c n).trans hs)]
  | some s =>
    obtain ⟨dead, h⟩ := ih w s
    refine ⟨dead, h.congr fun c => ?_⟩
    rw [cleanAt_some ((shapeOn?_rebook w c n).trans hs)]

theorem destroy_onlyCancels_step {depth : Nat} (ihd : DestroyOnlyCancels α κ σ depth)
    (ihc : CleanOnlyCancels α κ σ depth) : DestroyOnlyCancels α κ σ (depth + 1) := by
  intro w n
  by_cases hl : w.isAlive n = true
  swap
  · refine ⟨[], (OnlyCancels.refl none w).congr fun c => ?_⟩
    rw [destroyWithin, isAlive_rebook, if_neg hl]
  -- its shape's content, its children, the node
  let child (p : World α κ σ × Option (Fault α)) (m : NodeId) : World α κ σ × Option (Fault α) :=
    ((destroyWithin depth m p.1).1, p.2 <|> (destroyWithin depth m p.1).2)
  have hchild (v : World α κ σ) (fault : Option (Fault α)) (m : NodeId) :
      ∃ dead, OnlyCancels (fun v => child (v, fault) m) v dead := by
    obtain ⟨dead, h⟩ := ihd v m
    exact ⟨dead, h.value fun x => fault <|> x⟩
  have hchildren (v : World α κ σ) : ∃ dead, OnlyCancels (fun v => (v.children n).foldl child (v, none)) v dead := by
    obtain ⟨dead, h⟩ := OnlyCancels.foldl hchild (v.children n) v none
    exact ⟨dead, h.congr fun c => by rw [children_rebook]⟩
  have hnode (v : World α κ σ) (fault : Option (Fault α)) :
      OnlyCancels (fun v => ((v.announce n).bury n, fault <|> (v.announce n).objection? n)) v [n] := by
    have hobjection := (OnlyCancels.announce () v n).observe (fun v => fault <|> v.objection? n) fun u c => by
      rw [objection?_rebook]
    exact hobjection.andThen (k := fun fault u => (u.bury n, fault)) (OnlyCancels.bury _ _ n)
  obtain ⟨d, h₁⟩ := cleanAt_onlyCancels ihc w n
  obtain ⟨e, h₂⟩ := hchildren (cleanAt depth n w)
  have hwhole := (h₁.andThen (k := fun _ v => (v.children n).foldl child (v, none)) h₂).andThen
    (k := fun fault v => ((v.announce n).bury n, fault <|> (v.announce n).objection? n)) (hnode _ _)
  refine ⟨_, hwhole.congr fun c => ?_⟩
  rw [destroyWithin, isAlive_rebook, if_pos hl]
  rfl

theorem cleanOne_alive {depth : Nat} {s : ShapeId} {w : World α κ σ} {n : NodeId} (hl : w.isAlive n = true) :
    cleanOne depth s w n =
      if (destroyWithin depth n (cleanAt depth n w)).2.isSome
      then (destroyWithin depth n (cleanAt depth n w)).1.warnCleanup s n
      else (destroyWithin depth n (cleanAt depth n w)).1 := by
  rw [cleanOne, if_pos hl]
  dsimp only
  rcases destroyWithin depth n (cleanAt depth n w) with ⟨u, _ | fault⟩ <;> rfl

theorem clean_onlyCancels_step {depth : Nat} (ihd : DestroyOnlyCancels α κ σ depth) (ihc : CleanOnlyCancels α κ σ depth) :
    CleanOnlyCancels α κ σ (depth + 1) := by
  intro w s
  cases hg : (w.shape? s).bind (·.generated) with
  | none =>
    refine ⟨[], (OnlyCancels.refl () w).congr fun c => ?_⟩
    rw [cleanWithin_none (by rw [shape?_rebook, hg])]
  | some gs =>
    have hone (v : World α κ σ) (_ : Unit) (n : NodeId) :
        ∃ dead, OnlyCancels (fun v => (cleanOne depth s v n, ())) v dead := by
      by_cases hl : v.isAlive n = true
      swap
      · refine ⟨[], (OnlyCancels.refl () v).congr fun c => ?_⟩
        rw [cleanOne, isAlive_rebook, if_neg hl]
      obtain ⟨d, h₁⟩ := cleanAt_onlyCancels ihc v n
      obtain ⟨e, h₂⟩ := ihd (cleanAt depth n v) n
      let heed (fault : Option (Fault α)) (u : World α κ σ) : World α κ σ × Unit :=
        (if fault.isSome then u.warnCleanup s n else u, ())
      have hheed (fault : Option (Fault α)) (u : World α κ σ) : OnlyCancels (heed fault) u [] := by
        cases fault with
        | none => exact OnlyCancels.refl () u
        | some x => exact OnlyCancels.warnCleanup () u s n
      have hwhole := (h₁.andThen (k := fun _ => destroyWithin depth n) h₂).andThen (k := heed) (hheed _ _)
      refine ⟨_, hwhole.congr fun c => ?_⟩
      rw [cleanOne_alive ((isAlive_rebook v c n).trans hl)]
    have hfold (v : World α κ σ) : gs.foldl (fun p n => (cleanOne depth s p.1 n, ())) (v, ()) =
        (gs.foldl (cleanOne depth s) v, ()) :=
      @List.foldl_hom _ _ _ (fun v : World α κ σ => (v, ())) (cleanOne depth s) _ _ _ fun _ _ => rfl
    obtain ⟨dead, h⟩ := OnlyCancels.foldl (k := fun p n => (cleanOne depth s p.1 n, ())) hone gs (w.takeGenerated s) ()
    have htake : OnlyCancels (fun v => (v.takeGenerated s, ())) w [] :=
      onlyCancels_of_rebook rfl (fun _ => rfl) rfl fun c => by rw [takeGenerated_rebook]
    have hmark (v : World α κ σ) : OnlyCancels (fun v => (v.markCleared s, ())) v [] :=
      onlyCancels_of_rebook rfl (fun _ => rfl) rfl fun c => by rw [markCleared_rebook]
    have hwhole := (htake.andThen (k := fun _ v => gs.foldl (fun p n => (cleanOne depth s p.1 n, ())) (v, ())) h).andThen
      (k := fun _ v => (v.markCleared s, ())) (hmark _)
    refine ⟨_, hwhole.congr fun c => ?_⟩
    rw [cleanWithin_some (by rw [shape?_rebook, hg])]
    rw [hfold]

/-- **Teardowns.** Whatever a teardown meets and however far it gets, it drops the appointments of the nodes that it
tells of, and does not look at others. -/
theorem onlyCancels_within (depth : Nat) : DestroyOnlyCancels α κ σ depth ∧ CleanOnlyCancels α κ σ depth := by
  induction depth with
  | zero => exact ⟨fun w n => ⟨[], OnlyCancels.refl _ w⟩, fun w s => ⟨[], OnlyCancels.refl _ w⟩⟩
  | succ depth ih => exact ⟨destroy_onlyCancels_step ih.1 ih.2, clean_onlyCancels_step ih.1 ih.2⟩

end World

end SceneGrammar
