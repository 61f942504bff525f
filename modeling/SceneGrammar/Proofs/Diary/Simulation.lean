/-
Runs on a world and runs on a planner.

A world bounds what an advance may run (`Grammar.spare`), a planner does not. `Mirrors`: the planner is the world, and the
world's agenda keeps the books of the planner's diary. `Approaches`: runs within greater and greater bounds come to what
the run on the planner comes to. Each of them is cut off by its bound or ends as that run does, and if that run ends,
then so do they all from some bound on, and in the same way.

One lemma for each construct says that the runs approach; `Prog.Discreet.approaches` is the induction over programs and
`planWithin_approaches` that over the depth of rules.
-/
import SceneGrammar.Proofs.Diary.Planner

namespace SceneGrammar

variable {α κ σ β γ : Type}

namespace Planner

/-- the planner is the world, with the diary whose books the agenda keeps -/
structure Mirrors [Scalar α] (w : World α κ σ) (p : Planner α κ σ) : Prop where
  scene : p.world = w.rebook p.world.agenda
  books : w.agenda.Books p.diary

/-- one answer or one fault, and a planner that mirrors the world -/
inductive Matches [Scalar α] : EStateM.Result (Fault α) (World α κ σ) β → Result α κ σ β → Prop
  | ok (b : β) {w : World α κ σ} {p : Planner α κ σ} (h : Mirrors w p) : Matches (.ok b w) (.ok b p)
  | error (e : Fault α) {w : World α κ σ} {p : Planner α κ σ} (h : Mirrors w p) : Matches (.error e w) (.error e p)

/-- a run that ended at its bound -/
def CutOff (r : EStateM.Result (Fault α) (World α κ σ) β) : Prop := ∃ w, r = .error .tooLong w

/-- what the runs within greater and greater bounds come to is what the run on the planner comes to -/
structure Approaches [Scalar α] (R : Nat → EStateM.Result (Fault α) (World α κ σ) β) (o : Part (Result α κ σ β)) :
    Prop where
  sound : ∀ k, CutOff (R k) ∨ ∃ q ∈ o, Matches (R k) q
  complete : ∀ q ∈ o, ∃ r K, Matches r q ∧ ∀ k, K ≤ k → R k = r

/-- go on from an answer or a fault -/
def onward (r : EStateM.Result (Fault α) (World α κ σ) β) (f : β → Act α κ σ γ) (g : Fault α → Act α κ σ γ) :
    EStateM.Result (Fault α) (World α κ σ) γ :=
  match r with
  | .ok b w => f b w
  | .error e w => g e w

/-! ## Approaching -/

section

variable [Scalar α]

/-- a run without a bound -/
theorem approaches_some {r : EStateM.Result (Fault α) (World α κ σ) β} {q : Result α κ σ β} (h : Matches r q) :
    Approaches (fun _ => r) (.some q) where
  sound _ := Or.inr ⟨q, Part.mem_some q, h⟩
  complete _ hq := ⟨r, 0, Part.mem_some_iff.1 hq ▸ h, fun _ _ => rfl⟩

theorem approaches_answer {w : World α κ σ} {p : Planner α κ σ} (h : Mirrors w p) (b : β) :
    Approaches (fun _ => .ok b w) (answer b p) := approaches_some (.ok b h)

theorem approaches_fail {w : World α κ σ} {p : Planner α κ σ} (h : Mirrors w p) (e : Fault α) :
    Approaches (fun _ => .error e w : Nat → EStateM.Result (Fault α) (World α κ σ) β) (fail e p) :=
  approaches_some (.error e h)

/-- a run that gives an answer -/
theorem Approaches.of_ok {R : Nat → EStateM.Result (Fault α) (World α κ σ) β} {o : Part (Result α κ σ β)}
    (h : Approaches R o) {k : Nat} {b : β} {w : World α κ σ} (hk : R k = .ok b w) :
    ∃ p, .ok b p ∈ o ∧ Mirrors w p := by
  rcases h.sound k with ⟨v, hv⟩ | ⟨q, hq, hm⟩
  · cases hk.symm.trans hv
  rw [hk] at hm
  cases hm with
  | ok b hm => exact ⟨_, hq, hm⟩

/-- a run that ends with a fault, but not at its bound -/
theorem Approaches.of_error {R : Nat → EStateM.Result (Fault α) (World α κ σ) β} {o : Part (Result α κ σ β)}
    (h : Approaches R o) {k : Nat} {e : Fault α} {w : World α κ σ} (hk : R k = .error e w) (he : e ≠ .tooLong) :
    ∃ p, .error e p ∈ o ∧ Mirrors w p := by
  rcases h.sound k with ⟨v, hv⟩ | ⟨q, hq, hm⟩
  · cases hk.symm.trans hv
    exact absurd rfl he
  rw [hk] at hm
  cases hm with
  | error e hm => exact ⟨_, hq, hm⟩

/-- **One run after another.** What has been cut off must not go on as if it had not. -/
theorem Approaches.resume {R : Nat → EStateM.Result (Fault α) (World α κ σ) β} {o : Part (Result α κ σ β)}
    (h : Approaches R o) {F : Nat → β → Act α κ σ γ} {G : Nat → Fault α → Act α κ σ γ} {f : β → Plan α κ σ γ}
    {g : Fault α → Plan α κ σ γ} (hf : ∀ b w p, Mirrors w p → Approaches (fun k => F k b w) (f b p))
    (hg : ∀ e w p, Mirrors w p → Approaches (fun k => G k e w) (g e p)) (hcut : ∀ k w, CutOff (G k .tooLong w)) :
    Approaches (fun k => onward (R k) (F k) (G k)) (Planner.resume o f g) where
  sound k := by
    rcases h.sound k with ⟨w, hw⟩ | ⟨q, hq, hm⟩
    · left
      rw [hw]
      exact hcut k w
    generalize R k = r at hm
    cases hm with
    | ok b hm =>
      rcases (hf b _ _ hm).sound k with hc | ⟨q', hq', hm'⟩
      · exact Or.inl hc
      · exact Or.inr ⟨q', Part.mem_bind hq hq', hm'⟩
    | error e hm =>
      rcases (hg e _ _ hm).sound k with hc | ⟨q', hq', hm'⟩
      · exact Or.inl hc
      · exact Or.inr ⟨q', Part.mem_bind hq hq', hm'⟩
  complete q' hq' := by
    obtain ⟨q, hq, hnext⟩ := Part.mem_bind_iff.1 hq'
    obtain ⟨r, K, hm, hR⟩ := h.complete q hq
    cases hm with
    | ok b hm =>
      obtain ⟨r', K', hm', hF⟩ := (hf b _ _ hm).complete q' hnext
      refine ⟨r', max K K', hm', fun k hk => ?_⟩
      show onward (R k) (F k) (G k) = r'
      rw [hR k (le_of_max_le_left hk)]
      exact hF k (le_of_max_le_right hk)
    | error e hm =>
      obtain ⟨r', K', hm', hG⟩ := (hg e _ _ hm).complete q' hnext
      refine ⟨r', max K K', hm', fun k hk => ?_⟩
      show onward (R k) (F k) (G k) = r'
      rw [hR k (le_of_max_le_left hk)]
      exact hG k (le_of_max_le_right hk)

/-- a fault ends the run -/
theorem Approaches.bind {R : Nat → EStateM.Result (Fault α) (World α κ σ) β} {o : Part (Result α κ σ β)}
    (h : Approaches R o) {F : Nat → β → Act α κ σ γ} {f : β → Plan α κ σ γ}
    (hf : ∀ b w p, Mirrors w p → Approaches (fun k => F k b w) (f b p)) :
    Approaches (fun k => onward (R k) (F k) fun e w => .error e w) (Planner.resume o f fail) := by
  apply h.resume hf
  · intro e w p hm
    exact approaches_fail hm e
  · intro k w
    exact ⟨w, rfl⟩

/-- the same runs in other words -/
theorem Approaches.congr {R R' : Nat → EStateM.Result (Fault α) (World α κ σ) β} {o : Part (Result α κ σ β)}
    (h : Approaches R o) (hR : ∀ k, R' k = R k) : Approaches R' o := by
  rw [funext hR]
  exact h

/-! ## Operations that leave the agenda to itself -/

section

variable {w : World α κ σ} {p : Planner α κ σ}

theorem Mirrors.shapeOn? (h : Mirrors w p) (n : NodeId) : p.world.shapeOn? n = w.shapeOn? n := by
  rw [h.scene, World.shapeOn?_rebook]

theorem Mirrors.shapeAlive (h : Mirrors w p) (s : ShapeId) : p.world.shapeAlive s = w.shapeAlive s := by
  rw [h.scene, World.shapeAlive_rebook]

/-- what there is to see of a world, apart from its heap, is what there is to see of the planner -/
theorem Mirrors.shown (h : Mirrors w p) : p.shown = w.rebook { w.agenda with heap := #[] } := by
  rw [Planner.shown, h.scene, World.rebook_rebook, ← h.books.now, ← h.books.pending, ← h.books.nextNumber]

/-- the appointments and the bookings of nodes that end go together -/
theorem Mirrors.cancelAll (h : Mirrors w p) (dead : List NodeId) :
    (w.cancelAll dead w.agenda).Books (p.cancelAll dead) := by
  have hfold (a : Agenda α) (d : Diary α) (hd : a.Books d) : (w.cancelAll dead a).Books
      (dead.foldl (fun d n => if (p.world.shapeOn? n).isSome then d.cancel n else d) d) := by
    induction dead generalizing a d with
    | nil => exact hd
    | cons n dead ih =>
      rw [World.cancelAll, List.foldl_cons, List.foldl_cons, h.shapeOn?]
      split_ifs
      · exact ih _ _ (hd.cancel n)
      · exact ih _ _ hd
  exact hfold _ _ h.books

/-- the planner follows a change of its world -/
theorem Mirrors.follow (h : Mirrors w p) {v : World α κ σ} {es : List Entry}
    (hjournal : v.journal.toList = w.journal.toList ++ es) (hagenda : v.agenda = w.cancelAll (endedIn es) w.agenda)
    (c : Agenda α) : Mirrors v (p.follow (v.rebook c)) where
  scene := rfl
  books := by
    have hsize : p.world.journal.size = w.journal.toList.length := by rw [h.scene]; rfl
    have hes : (v.rebook c).journal.toList.drop p.world.journal.size = es := by
      rw [hsize, World.journal_rebook, hjournal, List.drop_left]
    rw [hagenda, Planner.follow, hes]
    exact h.cancelAll _

/-- an operation that neither plans nor runs rules -/
theorem Mirrors.lift (h : Mirrors w p) {a : Act α κ σ β} (ha : a.Blind) : Approaches (fun _ => a w) (lift a p) := by
  obtain ⟨es, hjournal, hrebook⟩ := ha w
  have hworld := hrebook p.world.agenda
  rw [← h.scene] at hworld
  have hself := hrebook w.agenda
  rw [World.rebook_agenda] at hself
  have hagenda : (a.after w).agenda = w.cancelAll (endedIn es) w.agenda := by
    unfold Act.after
    rw [hself]
    cases a w <;> rfl
  unfold Act.after at hjournal hagenda
  unfold Planner.lift
  rw [hworld]
  cases hw : a w with
  | ok b v =>
    rw [hw] at hjournal hagenda
    exact approaches_answer (h.follow hjournal hagenda _) b
  | error e v =>
    rw [hw] at hjournal hagenda
    exact approaches_fail (h.follow hjournal hagenda _) e

end

/-! ## Operations that run rules -/

section

variable {w : World α κ σ} {p : Planner α κ σ}

/-- a change of the world in which the agenda has no part -/
theorem Mirrors.update (h : Mirrors w p) {f : World α κ σ → World α κ σ}
    (hrebook : ∀ w c, f (w.rebook c) = (f w).rebook c) (hagenda : (f w).agenda = w.agenda) : Mirrors (f w) { p with world := f p.world } where
  scene := by
    have hf : f p.world = (f w).rebook p.world.agenda := by rw [← hrebook, ← h.scene]
    rw [hf]
    rfl
  books := hagenda ▸ h.books

/-- a change of the plans -/
theorem Mirrors.plan (h : Mirrors w p) {a : Agenda α} {d : Diary α} (hbooks : a.Books d) :
    Mirrors { w with agenda := a } { p with diary := d } where
  scene := h.scene
  books := hbooks

variable {E : Nat → ShapeId → Act α κ σ Unit} {e : ShapeId → Plan α κ σ Unit}
  (he : ∀ s w p, Mirrors w p → Approaches (fun k => E k s w) (e s p))

include he

theorem runExpansion_approaches (s : ShapeId) (h : Mirrors w p) :
    Approaches (fun k => World.runExpansion (E k) s w) (runExpansion e s p) := by
  have hmark : Mirrors (w.markExpanded s) { p with world := p.world.markExpanded s } :=
    h.update (f := fun w => w.markExpanded s) (fun _ _ => rfl) rfl
  have hrun := (he s _ _ hmark).bind (F := fun _ _ v => .ok () (v.note (.finished s)))
    (f := fun _ p => answer () { p with world := p.world.note (.finished s) }) fun _ v q hm =>
      approaches_answer (hm.update (f := fun w => w.note (.finished s)) (fun _ _ => rfl) rfl) ()
  refine hrun.congr fun k => ?_
  unfold World.runExpansion onward
  cases E k s (w.markExpanded s) <;> rfl

theorem createSymbol_approaches [SymbolKind κ] (creator : ShapeId) (offer : KindOffer κ) (name : String)
    (parent : Option NodeId) (pose : Pose α) (h : Mirrors w p) :
    Approaches (fun k => World.createSymbol (E k) creator offer name parent pose w)
      (createSymbol e creator offer name parent pose p) := by
  have hplace := h.lift (World.blind_placeSymbol creator offer name parent pose)
  have hrun := hplace.bind
    (F := fun k s v => if v.eager then onward (World.runExpansion (E k) s v) (fun _ v => .ok s v) fun e v => .error e v
      else .ok s v)
    (f := fun s p => if p.world.eager then resume (runExpansion e s p) (fun _ => answer s) fail else answer s p) ?_
  · refine hrun.congr fun k => ?_
    unfold World.createSymbol onward
    cases World.placeSymbol creator offer name parent pose w with
    | error x v => rfl
    | ok s v =>
      simp only
      split_ifs
      · cases World.runExpansion (E k) s v <;> rfl
      · rfl
  · intro s v q hm
    have heager : q.world.eager = v.eager := by rw [hm.scene]; rfl
    rw [heager]
    split_ifs
    · exact (runExpansion_approaches he s hm).bind fun _ _ _ hm => approaches_answer hm s
    · exact approaches_answer hm s

omit he in
theorem schedule_approaches [OrderedScalar α] [SymbolKind κ] (s : ShapeId) (delay : α) (h : Mirrors w p) :
    Approaches (fun _ => World.schedule s delay w) (schedule s delay p) := by
  unfold World.schedule schedule
  have hnode : p.world.nodeOf s = w.nodeOf s := by rw [h.scene]; rfl
  rw [hnode]
  split_ifs
  · exact approaches_fail h _
  · cases w.nodeOf s with
    | error x => exact approaches_fail h x
    | ok n => exact approaches_answer (h.plan (h.books.schedule n s delay)) ()

/-- the part of `World.generate` that follows the deletion -/
def renewed [SymbolKind κ] (expand : ShapeId → Act α κ σ Unit) (s : ShapeId) (delay : α) : Act α κ σ Unit := fun w =>
  match w.nodeOf s with
  | .error _ => .error (.noContext (w.typeName s)) w
  | .ok n =>
    let w := { w with agenda := (w.agenda.cancel n).2 }
    if delay == Scalar.zero || !w.live then World.runExpansion expand s w else World.schedule s delay w

theorem renew_approaches [OrderedScalar α] [SymbolKind κ] (s : ShapeId) (delay : α) (h : Mirrors w p) :
    Approaches (fun k => renewed (E k) s delay w) (renew e s delay p) := by
  have hnode : p.world.nodeOf s = w.nodeOf s := by rw [h.scene]; rfl
  have hname : p.world.typeName s = w.typeName s := by rw [h.scene]; rfl
  have hlive : p.world.live = w.live := by rw [h.scene]; rfl
  unfold renewed renew
  rw [hnode]
  cases w.nodeOf s with
  | error x =>
    rw [hname]
    exact approaches_fail h _
  | ok n =>
    have hcancel := h.plan (h.books.cancel n)
    simp only [hlive]
    split_ifs
    · exact runExpansion_approaches he s hcancel
    · exact schedule_approaches s delay hcancel

theorem generate_approaches [OrderedScalar α] [SymbolKind κ] (s : ShapeId) (delay : α) (h : Mirrors w p) :
    Approaches (fun k => World.generate (E k) s delay w) (generate e s delay p) := by
  by_cases hneg : delay < Scalar.zero
  · simp only [World.generate, generate, if_pos hneg]
    exact approaches_fail h _
  have hdelete := h.lift (World.blind_deleteGenerated s)
  have hrun := hdelete.bind (F := fun k _ => renewed (E k) s delay) fun _ v q hm => renew_approaches he s delay hm
  simp only [generate, if_neg hneg]
  refine hrun.congr fun k => ?_
  simp only [World.generate, if_neg hneg, onward]
  cases World.deleteGenerated s w <;> rfl

/-! ## Advancing -/

omit he in
/-- what comes up in the heap is a cancelled entry or the first booking due -/
theorem Mirrors.pop [OrderedScalar α] (h : Mirrors w p) {x : Appointment α} {a : Agenda α}
    (hp : w.agenda.popDue = some (x, a)) :
    x.cancelled = true ∧ Mirrors { w with agenda := a } p ∨
    x.cancelled = false ∧ p.diary.firstDue? = some ⟨x.node, x.booking⟩ ∧
      Mirrors { w with agenda := a.settle x.node } { p with diary := p.diary.cancel x.node } := by
  cases hc : x.cancelled with
  | true => exact Or.inl ⟨rfl, h.plan (h.books.pop_cancelled hp hc)⟩
  | false =>
    obtain ⟨hfirst, hbooks⟩ := h.books.pop_booked hp hc
    exact Or.inr ⟨rfl, hfirst, h.plan hbooks⟩

section

variable {expand : ShapeId → Act α κ σ Unit} {passes : Nat} {done : List ShapeId} {x : Appointment α} {a : Agenda α}

omit he

theorem runDue_resumed (hp : w.agenda.popDue = some (x, a)) (hc : x.cancelled = false)
    (halive : w.shapeAlive x.shape = true) :
    World.runDue expand (passes + 1) done w =
      onward (World.runExpansion expand x.shape { w with agenda := a.settle x.node })
        (fun _ => World.runDue expand passes (x.shape :: done)) fun e w => .error e w := by
  unfold onward
  cases hr : World.runExpansion expand x.shape { w with agenda := a.settle x.node } with
  | ok _ v => exact World.runDue_run hp hc halive hr
  | error e v => exact World.runDue_failed hp hc halive hr

end

omit he in
/-- a loop that has nothing to do ends as it does on the planner -/
theorem runDue_none_sound [OrderedScalar α] (h : Mirrors w p) (hp : w.agenda.popDue = none)
    (expand : ShapeId → Act α κ σ Unit) (passes : Nat) (done : List ShapeId) :
    ∃ q ∈ drain e done p, Matches (World.runDue expand passes done w) q := by
  rw [World.runDue_none hp, drain_none (h.books.pop_none hp)]
  exact ⟨_, Part.mem_some _, .ok _ h⟩

/-- a loop that has not been cut off ends as it does on the planner -/
theorem runDue_sound [OrderedScalar α] (k passes : Nat) (done : List ShapeId) (w : World α κ σ) (p : Planner α κ σ)
    (h : Mirrors w p) : CutOff (World.runDue (E k) passes done w) ∨
      ∃ q ∈ drain e done p, Matches (World.runDue (E k) passes done w) q := by
  induction passes generalizing done w p with
  | zero =>
    cases hp : w.agenda.popDue with
    | none => exact Or.inr (runDue_none_sound h hp _ _ _)
    | some y => exact Or.inl ⟨w, World.runDue_zero hp⟩
  | succ passes ih =>
    cases hp : w.agenda.popDue with
    | none => exact Or.inr (runDue_none_sound h hp _ _ _)
    | some y =>
      obtain ⟨x, a⟩ := y
      rcases h.pop hp with ⟨hc, hm⟩ | ⟨hc, hfirst, hm⟩
      · rw [World.runDue_cancelled hp hc]
        exact ih done _ p hm
      by_cases halive : w.shapeAlive x.shape = true
      · rw [runDue_resumed hp hc halive, drain_run hfirst (by rw [h.shapeAlive]; exact halive)]
        rcases (runExpansion_approaches he x.shape hm).sound k with ⟨v, hv⟩ | ⟨q, hq, hmatch⟩
        · left
          rw [hv]
          exact ⟨v, rfl⟩
        generalize World.runExpansion (E k) x.shape { w with agenda := a.settle x.node } = r at hmatch
        cases hmatch with
        | ok u hmu =>
          rcases ih (x.shape :: done) _ _ hmu with hcut | ⟨q', hq', hmatch⟩
          · exact Or.inl hcut
          · exact Or.inr ⟨q', Part.mem_bind hq hq', hmatch⟩
        | error fault hmu => exact Or.inr ⟨_, Part.mem_bind hq (Part.mem_some _), .error fault hmu⟩
      · rw [World.runDue_dropped hp hc halive, drain_dropped hfirst (by rw [h.shapeAlive]; exact halive)]
        exact ih done _ _ hm

/-- within all great enough bounds the loop ends in one way, which is that of the planner -/
def ComesTo (E : Nat → ShapeId → Act α κ σ Unit) (done : List ShapeId) (w : World α κ σ)
    (q : Result α κ σ (List ShapeId)) : Prop :=
  ∃ r K N, Matches r q ∧ ∀ k passes, K ≤ k → N ≤ passes → World.runDue (E k) passes done w = r

omit he in
/-- one pass more -/
theorem ComesTo.pass {done done' : List ShapeId} {w w' : World α κ σ} {q : Result α κ σ (List ShapeId)}
    (h : ComesTo E done' w' q) (K : Nat) (hpass : ∀ k, K ≤ k → ∀ passes,
      World.runDue (E k) (passes + 1) done w = World.runDue (E k) passes done' w') : ComesTo E done w q := by
  obtain ⟨r, K', N, hmatch, hr⟩ := h
  refine ⟨r, max K K', N + 1, hmatch, fun k passes hk hN => ?_⟩
  obtain ⟨m, rfl⟩ := Nat.exists_eq_add_one.2 (Nat.lt_of_lt_of_le N.succ_pos hN)
  rw [hpass k (le_of_max_le_left hk)]
  exact hr k m (le_of_max_le_right hk) (Nat.le_of_succ_le_succ hN)

/-- a loop that ends on the planner ends in the same way -/
theorem runDue_complete [OrderedScalar α] {done : List ShapeId} {p : Planner α κ σ} {q : Result α κ σ (List ShapeId)}
    (hq : q ∈ drain e done p) (w : World α κ σ) (h : Mirrors w p) : ComesTo E done w q := by
  revert w
  -- over what the planner removes, and for each removal over the cancelled entries that come up before
  refine PFun.fixInduction (C := fun x => ∀ w, Mirrors w x.2 → ComesTo E x.1 w q) hq ?_
  rintro ⟨done, p⟩ hq ih w h
  replace hq : q ∈ drain e done p := hq
  induction hn : w.agenda.heap.size using Nat.strong_induction_on generalizing w with
  | _ n ihn =>
    cases hp : w.agenda.popDue with
    | none =>
      rw [drain_none (h.books.pop_none hp)] at hq
      obtain rfl := Part.mem_some_iff.1 hq
      exact ⟨_, 0, 0, .ok _ h, fun k passes _ _ => World.runDue_none hp⟩
    | some y =>
      obtain ⟨x, a⟩ := y
      rcases h.pop hp with ⟨hc, hm⟩ | ⟨hc, hfirst, hm⟩
      · have hless : a.heap.size < n := by rw [← hn]; exact Agenda.size_popDue hp
        exact (ihn _ hless _ hm rfl).pass 0 fun k _ passes => World.runDue_cancelled hp hc
      by_cases halive : w.shapeAlive x.shape = true
      · have halive' : p.world.shapeAlive x.shape = true := by rw [h.shapeAlive]; exact halive
        rw [drain_run hfirst halive'] at hq
        obtain ⟨r', hr', hnext⟩ := Part.mem_bind_iff.1 hq
        obtain ⟨r, K, hmatch, hR⟩ := (runExpansion_approaches he x.shape hm).complete r' hr'
        cases hmatch with
        | @ok u v p' hmu =>
          have hstep : .inr (x.shape :: done, p') ∈ removeFirst e (done, p) :=
            (mem_removeFirst_run hfirst halive').2 ⟨_, hr', Or.inl ⟨_, rfl, rfl⟩⟩
          refine (ih _ hstep _ hmu).pass K fun k hk passes => ?_
          rw [runDue_resumed hp hc halive, hR k hk]
          rfl
        | error fault hmu =>
          obtain rfl := Part.mem_some_iff.1 hnext
          refine ⟨_, K, 1, .error fault hmu, fun k passes hk hN => ?_⟩
          obtain ⟨m, rfl⟩ := Nat.exists_eq_add_one.2 hN
          rw [runDue_resumed hp hc halive, hR k hk]
          rfl
      · have hdead : ¬ p.world.shapeAlive x.shape = true := by rw [h.shapeAlive]; exact halive
        exact (ih _ (mem_removeFirst_dropped hfirst hdead) _ hm).pass 0 fun k _ passes => World.runDue_dropped hp hc halive

theorem advance_approaches [OrderedScalar α] (dt : α) (h : Mirrors w p) :
    Approaches (fun k => World.advance (E k) k dt w) (advance e dt p) := by
  by_cases hneg : dt < Scalar.zero
  · simp only [World.advance, advance, if_pos hneg]
    exact approaches_fail h _
  have htick := h.plan (h.books.tick dt)
  simp only [World.advance, advance, if_neg hneg]
  constructor
  · intro k
    exact runDue_sound he k _ [] _ _ htick
  · intro q hq
    obtain ⟨r, K, N, hmatch, hr⟩ := runDue_complete he hq _ htick
    refine ⟨r, max K N, hmatch, fun k hk => hr k _ (le_of_max_le_left hk) ?_⟩
    exact (le_of_max_le_right hk).trans (Nat.le_add_left _ _)

section

omit he

variable [SymbolKind κ] {o : Op α κ σ} (ho : o.Idle)

include ho

theorem perform_idle (expand : ShapeId → Plan α κ σ Unit) :
    perform expand o = lift (World.perform 0 (fun _ w => .ok () w) o) := by
  cases o with
  | clear | createSymbol | expand | generate | schedule | cancel | advance | clearAgenda => exact ho.elim
  | _ => rfl

theorem world_perform_idle (spare : Nat) (expand : ShapeId → Act α κ σ Unit) :
    World.perform spare expand o = World.perform 0 (fun _ w => .ok () w) o := by
  cases o with
  | clear | createSymbol | expand | generate | schedule | cancel | advance | clearAgenda => exact ho.elim
  | _ => rfl

end

omit he in
theorem cancel_approaches (n : NodeId) (h : Mirrors w p) :
    Approaches (fun _ => World.cancel n w) (answer (p.diary.isPending n) { p with diary := p.diary.cancel n }) := by
  rw [← h.books.cancel_fst n]
  exact approaches_answer (h.plan (h.books.cancel n)) _

/-- **One operation.** -/
theorem perform_approaches [OrderedScalar α] [SymbolKind κ] (o : Op α κ σ) (h : Mirrors w p) :
    Approaches (fun k => World.perform k (E k) o w) (perform e o p) := by
  by_cases ho : o.Idle
  · rw [perform_idle ho]
    refine (h.lift (World.perform_blind 0 _ ho)).congr fun k => ?_
    rw [world_perform_idle ho]
  cases o with
  | clear => exact ((h.plan h.books.clear).lift World.blind_sweep).congr fun _ => World.clear_eq w
  | createSymbol creator offer name parent pose => exact createSymbol_approaches he creator offer name parent pose h
  | expand s => exact he s w p h
  | generate s delay => exact generate_approaches he s delay h
  | schedule s delay => exact schedule_approaches s delay h
  | cancel n => exact cancel_approaches n h
  | advance dt => exact advance_approaches he dt h
  | clearAgenda => exact approaches_answer (h.plan h.books.clear) ()
  | _ => exact absurd trivial ho

end

end

end Planner

open Planner

/-! ## Programs -/

/-- a program that, whatever it is run in, ends as if at its bound -/
def Prog.GivesUp [Scalar α] [SymbolKind κ] (p : Prog α κ σ β) : Prop :=
  ∀ (spare : Nat) (expand : ShapeId → Act α κ σ Unit) (w : World α κ σ), CutOff (p.exec spare expand w)

/-- a program that does not look into the heap, and that gives up where something has been cut off inside it: only the
bound of a run ever has that fault -/
def Prog.Discreet [Scalar α] [SymbolKind κ] {β : Type} : Prog α κ σ β → Prop
  | .done _ => True
  | .fail _ => True
  | .look f next => (∀ w : World α κ σ, f (w.rebook { w.agenda with heap := #[] }) = f w) ∧ ∀ x, (next x).Discreet
  | .perform _ next => ∀ x, (next x).Discreet
  | .attempt body next => body.Discreet ∧ (next (.error .tooLong)).GivesUp ∧ ∀ r, (next r).Discreet

/-- go on from the answer or any fault of a program, but give up where something has been cut off inside it -/
def Prog.endure (body : Prog α κ σ γ) (next : Except (Fault α) γ → Prog α κ σ β) : Prog α κ σ β :=
  .attempt body fun
    | .error .tooLong => .fail .tooLong
    | r => next r

theorem Prog.discreet_endure [Scalar α] [SymbolKind κ] {body : Prog α κ σ γ} {next : Except (Fault α) γ → Prog α κ σ β}
    (hbody : body.Discreet) (hnext : ∀ r, (next r).Discreet) : (body.endure next).Discreet := by
  refine ⟨hbody, fun spare expand w => ⟨w, rfl⟩, fun r => ?_⟩
  cases r with
  | ok x => exact hnext _
  | error e =>
    cases e with
    | tooLong => exact trivial
    | _ => exact hnext _

section

variable [Scalar α] [OrderedScalar α] [SymbolKind κ] {E : Nat → ShapeId → Act α κ σ Unit}
  {e : ShapeId → Plan α κ σ Unit}

/-- **Programs.** -/
theorem Prog.Discreet.approaches (he : ∀ s w p, Mirrors w p → Approaches (fun k => E k s w) (e s p)) {q : Prog α κ σ β}
    (hq : q.Discreet) {w : World α κ σ} {p : Planner α κ σ} (h : Mirrors w p) :
    Approaches (fun k => q.exec k (E k) w) (q.plan e p) := by
  induction q generalizing w p with
  | done b => exact approaches_answer h b
  | fail fault => exact approaches_fail h fault
  | look f next ih =>
    have hlook : f p.shown = f w := by rw [h.shown, hq.1]
    simp only [Prog.exec, Prog.plan, hlook]
    exact ih (f w) (hq.2 _) h
  | perform o next ih =>
    have hrun := (perform_approaches he o h).bind (F := fun k x => (next x).exec k (E k)) fun x _ _ hm => ih x (hq x) hm
    refine hrun.congr fun k => ?_
    cases hr : World.perform k (E k) o w <;> simp only [Prog.exec, hr, onward]
  | attempt body next ihb ihn =>
    obtain ⟨hbody, hgives, hnext⟩ := hq
    have hrun := (ihb hbody h).resume (F := fun k x => (next (.ok x)).exec k (E k))
      (G := fun k fault => (next (.error fault)).exec k (E k)) (fun x _ _ hm => ihn _ (hnext _) hm)
      (fun fault _ _ hm => ihn _ (hnext _) hm) fun k v => hgives k (E k) v
    refine hrun.congr fun k => ?_
    cases hr : body.exec k (E k) w <;> simp only [Prog.exec, hr, onward]

/-- **Rules.** However deep they run inside one another. -/
theorem planWithin_approaches {g : Grammar α κ σ} (hg : ∀ kind s, (g.rule kind s).Discreet) (depth : Nat) (s : ShapeId)
    (w : World α κ σ) (p : Planner α κ σ) (h : Mirrors w p) :
    Approaches (fun k => { g with spare := k }.expandWithin depth s w) (g.planWithin depth s p) := by
  induction depth generalizing s w p with
  | zero => exact approaches_fail h _
  | succ depth ih =>
    have hshape : p.world.shape? s = w.shape? s := by rw [h.scene]; rfl
    simp only [Grammar.expandWithin, Grammar.planWithin, hshape]
    cases w.shape? s with
    | none => exact approaches_answer h ()
    | some x => exact (hg x.kind s).approaches ih h

end

end SceneGrammar
