/-
What operations that run rules keep, of one world or of two side by side.

Making a symbol in an eager world, expanding one and moving the clock run rules, and rules perform operations. Such an
operation is made of a few parts: a symbol is placed, content is deleted, an expansion is entered as begun and finished,
and the agenda changes. A relation between two worlds that differ in nothing a scene heeds (`MuteEq`) is
`KeptByCreation` if placing and expanding keep it, and `KeptByOperations` if all these parts do: both runs then end alike,
with the same answer or the same fault, in worlds that are related again (`Alike`). Then the operations keep it, too,
whatever else the rules do, as long as the rules keep it (`KeptByCreation.createSymbol`, `KeptByOperations.generate`,
`KeptByOperations.advance`). A property of one world is a relation of the world to itself (`Itself`).

`Endures` says of a property that all operations that pass a test keep it, and then it holds of whole runs that pass it
(`Prog.HeedsBy.endures`).
-/
import SceneGrammar.Proofs.MuteEq
import SceneGrammar.Proofs.Newcomers

namespace SceneGrammar.World

variable {α κ σ β : Type}

/-! ## The parts of operations -/

/-- a world that has a property, and the same world -/
def Itself (J : World α κ σ → Prop) (w v : World α κ σ) : Prop := v = w ∧ J w

/-- one act, and what holds when it has ended -/
theorem alike_itself {J : World α κ σ → Prop} {w : World α κ σ} {a : Act α κ σ β} : Alike (Itself J) (a w) (a w) ↔ J (a.after w) := by
  unfold Act.after
  cases a w <;> exact ⟨fun h => h.2.2, fun h => ⟨rfl, rfl, h⟩⟩

variable [SymbolKind κ]

/-- a relation of sound worlds that placing a symbol and expanding one keep -/
structure KeptByCreation (R : World α κ σ → World α κ σ → Prop) : Prop where
  sound : ∀ {w v}, R w v → w.Sound
  muteEq : ∀ {w v}, R w v → MuteEq w v
  mark : ∀ {w v} s, R w v → R (w.markExpanded s) (v.markExpanded s)
  finish : ∀ {w v} s, R w v → R (w.note (.finished s)) (v.note (.finished s))
  place : ∀ {w v} creator offer name parent pose, R w v → w.shapeAlive creator = true → w.knows parent = true →
    Alike R (placeSymbol creator offer name parent pose w) (placeSymbol creator offer name parent pose v)

/-- a relation of sound worlds that the parts of all operations keep -/
structure KeptByOperations (R : World α κ σ → World α κ σ → Prop) : Prop extends KeptByCreation R where
  agenda : ∀ {w v} a, R w v → Sound { w with agenda := a } → R { w with agenda := a } { v with agenda := a }
  delete : ∀ {w v} s, R w v → Alike R (deleteGenerated s w) (deleteGenerated s v)

/-- running the rule of a living shape keeps a relation, also if the two sides run it in different ways -/
def Keeping (R : World α κ σ → World α κ σ → Prop) (expand expand' : ShapeId → Act α κ σ Unit) : Prop :=
  ∀ ⦃w v⦄ s, R w v → w.shapeAlive s = true → Alike R (expand s w) (expand' s v)

/-- a property of one world that lasts -/
theorem keptByOperations_itself {J : World α κ σ → Prop} (sound : ∀ w, J w → w.Sound)
    (mark : ∀ w s, J w → J (w.markExpanded s)) (finish : ∀ w s, J w → J (w.note (.finished s)))
    (agenda : ∀ w a, J w → Sound { w with agenda := a } → J { w with agenda := a })
    (place : ∀ creator offer name parent pose w, J w → w.shapeAlive creator = true → w.knows parent = true →
      J ((placeSymbol creator offer name parent pose).after w))
    (delete : ∀ s w, J w → J ((deleteGenerated s).after w)) : KeptByOperations (Itself J) where
  sound h := sound _ h.2
  muteEq h := h.1 ▸ MuteEq.refl _
  mark s h := ⟨h.1 ▸ rfl, mark _ s h.2⟩
  finish s h := ⟨h.1 ▸ rfl, finish _ s h.2⟩
  agenda a h ha := ⟨h.1 ▸ rfl, agenda _ a h.2 ha⟩
  place creator offer name parent pose h hc hk := by
    rw [h.1]
    exact alike_itself.2 (place creator offer name parent pose _ h.2 hc hk)
  delete s h := by
    rw [h.1]
    exact alike_itself.2 (delete s _ h.2)

omit [SymbolKind κ] in
theorem keeping_itself {J : World α κ σ → Prop} {expand : ShapeId → Act α κ σ Unit}
    (he : ∀ s w, J w → J ((expand s).after w)) : Keeping (Itself J) expand expand := by
  intro w v s h _
  rw [h.1]
  exact alike_itself.2 (he s w h.2)

section

variable {R : World α κ σ → World α κ σ → Prop} {expand expand' : ShapeId → Act α κ σ Unit} {w v : World α κ σ}

theorem KeptByCreation.runExpansion (hR : KeptByCreation R) (he : Keeping R expand expand') (h : R w v) {s : ShapeId}
    (hs : w.shapeAlive s = true) : Alike R (runExpansion expand s w) (runExpansion expand' s v) := by
  have hrun := he s (hR.mark s h) ((grown_markExpanded w s).shapeAlive hs)
  unfold World.runExpansion
  rcases hrun.cases with ⟨a, w', v', hw, hv, h'⟩ | ⟨e, w', v', hw, hv, h'⟩
  · simp only [hw, hv]
    exact ⟨rfl, hR.finish s h'⟩
  · simp only [hw, hv]
    exact ⟨rfl, h'⟩

theorem KeptByCreation.createSymbol (hR : KeptByCreation R) (he : Keeping R expand expand') (h : R w v) {creator : ShapeId}
    {parent : Option NodeId} (hc : w.shapeAlive creator = true) (hk : w.knows parent = true) (offer : KindOffer κ)
    (name : String) (pose : Pose α) :
    Alike R (createSymbol expand creator offer name parent pose w) (createSymbol expand' creator offer name parent pose v) := by
  unfold World.createSymbol
  rcases (hR.place creator offer name parent pose h hc hk).cases with ⟨s, w', v', hw, hv, h'⟩ | ⟨e, w', v', hw, hv, h'⟩
  swap
  · simp only [hw, hv]
    exact ⟨rfl, h'⟩
  simp only [hw, hv, (hR.muteEq h').eager]
  by_cases hea : w'.eager = true
  · simp only [if_pos hea]
    rcases (hR.runExpansion he h' (placeSymbol_placed hc hk hw).newborn).cases with
      ⟨a, w'', v'', hw', hv', h''⟩ | ⟨e, w'', v'', hw', hv', h''⟩
    · simp only [hw', hv']
      exact ⟨rfl, h''⟩
    · simp only [hw', hv']
      exact ⟨rfl, h''⟩
  · simp only [if_neg hea]
    exact ⟨rfl, h'⟩

variable [Scalar α]

theorem KeptByOperations.schedule (hR : KeptByOperations R) (h : R w v) {s : ShapeId} (hs : w.shapeAlive s = true)
    (delay : α) :
    Alike R (schedule s delay w) (schedule s delay v) := by
  obtain ⟨n, hn, hl⟩ := shapeAlive_iff.1 hs
  have hn' : v.homeOf s = some n := ((hR.muteEq h).homeOf s).trans hn
  unfold World.schedule
  rw [nodeOf_eq_ok_iff.2 hn, nodeOf_eq_ok_iff.2 hn', (hR.muteEq h).agenda]
  split_ifs
  · exact ⟨rfl, h⟩
  · exact ⟨rfl, hR.agenda _ h ((hR.sound h).schedule hl hn delay)⟩

theorem KeptByOperations.generate (hR : KeptByOperations R) (he : Keeping R expand expand') (h : R w v) {s : ShapeId}
    (hs : w.shapeAlive s = true) (delay : α) : Alike R (generate expand s delay w) (generate expand' s delay v) := by
  unfold World.generate
  by_cases hd : delay < Scalar.zero
  · simp only [if_pos hd]
    exact ⟨rfl, h⟩
  simp only [if_neg hd]
  obtain ⟨n, hn, -⟩ := shapeAlive_iff.1 hs
  obtain ⟨u, d, c, hu, hf, -⟩ := deleteGenerated_killsFrom (hR.sound h) s
  rcases (hR.delete s h).cases with ⟨a, w', v', hw, hv, h'⟩ | ⟨e, w', v', hw, -⟩
  swap
  · rw [hu] at hw
    cases hw
  obtain rfl : u = w' := by
    rw [hu] at hw
    injection hw
  have ha := hR.muteEq h'
  have hnode : u.homeOf s = some n := (hf.torn.homeOf s).trans hn
  have hcancel := hR.agenda _ h' ((hR.sound h').cancel n)
  have hlive : ({ u with agenda := (u.agenda.cancel n).2 } : World α κ σ).shapeAlive s = true :=
    hf.shapeAlive (hR.sound h).toTame hs
  simp only [hu, hv, nodeOf_eq_ok_iff.2 hnode, nodeOf_eq_ok_iff.2 ((ha.homeOf s).trans hnode), ha.agenda]
  by_cases hnow : (delay == Scalar.zero || !u.live) = true
  · rw [if_pos hnow, if_pos (ha.live ▸ hnow)]
    exact hR.runExpansion he hcancel hlive
  · rw [if_neg hnow, if_neg (ha.live ▸ hnow)]
    exact hR.schedule hcancel hlive delay

theorem KeptByOperations.runDue (hR : KeptByOperations R) (he : Keeping R expand expand') (passes : Nat)
    (done : List ShapeId) (h : R w v) :
    Alike R (runDue expand passes done w) (runDue expand' passes done v) := by
  induction passes generalizing done w v with
  | zero =>
    have hagenda : v.agenda = w.agenda := (hR.muteEq h).agenda
    cases hp : w.agenda.popDue with
    | none =>
      rw [runDue_none hp, runDue_none (hagenda ▸ hp)]
      exact ⟨rfl, h⟩
    | some p =>
      rw [runDue_zero hp, runDue_zero (hagenda ▸ hp)]
      exact ⟨rfl, h⟩
  | succ passes ih =>
    have hagenda : v.agenda = w.agenda := (hR.muteEq h).agenda
    cases hp : w.agenda.popDue with
    | none =>
      rw [runDue_none hp, runDue_none (hagenda ▸ hp)]
      exact ⟨rfl, h⟩
    | some p =>
      obtain ⟨e, a⟩ := p
      have hp' : v.agenda.popDue = some (e, a) := hagenda ▸ hp
      cases hc : e.cancelled with
      | true =>
        rw [runDue_cancelled hp hc, runDue_cancelled hp' hc]
        exact ih done (hR.agenda a h ((hR.sound h).dropped hp hc))
      | false =>
        have hsettled := hR.agenda _ h ((hR.sound h).settled hp hc)
        have halive : v.shapeAlive e.shape = w.shapeAlive e.shape := (hR.muteEq h).shapeAlive e.shape
        by_cases hs : w.shapeAlive e.shape = true
        · have hs' : v.shapeAlive e.shape = true := halive.trans hs
          rcases (hR.runExpansion he hsettled hs).cases with ⟨_, w', v', hw, hv, h'⟩ | ⟨f, w', v', hw, hv, h'⟩
          · rw [runDue_run hp hc hs hw, runDue_run hp' hc hs' hv]
            exact ih _ h'
          · rw [runDue_failed hp hc hs hw, runDue_failed hp' hc hs' hv]
            exact ⟨rfl, h'⟩
        · rw [runDue_dropped hp hc hs, runDue_dropped hp' hc (halive ▸ hs)]
          exact ih done hsettled

theorem KeptByOperations.advance (hR : KeptByOperations R) (he : Keeping R expand expand') (h : R w v) (spare : Nat)
    (dt : α) :
    Alike R (advance expand spare dt w) (advance expand' spare dt v) := by
  unfold World.advance
  rw [(hR.muteEq h).agenda]
  split_ifs
  · exact ⟨rfl, h⟩
  · exact hR.runDue he _ [] (hR.agenda _ h ((hR.sound h).tick dt))

end

end SceneGrammar.World

namespace SceneGrammar

variable {α κ σ β : Type} [Scalar α] [SymbolKind κ]

/-! ## Runs in which every operation passes a test -/

/-- a run in which every operation passes a test: it is the same when the rest is refused -/
def Prog.HeedsBy (ok : World α κ σ → Op α κ σ → Bool) (g : Grammar α κ σ) (p : Prog α κ σ β) (w : World α κ σ) : Prop :=
  (p.guarded ok).run (g.guarded ok) w = p.run g w

/-- an operation that passes a test keeps `J`, if the rules that it runs do -/
def World.Endures (spare : Nat) (ok : World α κ σ → Op α κ σ → Bool) (J : World α κ σ → Prop) : Prop :=
  ∀ expand : ShapeId → Act α κ σ Unit, (∀ s w, J w → J ((expand s).after w)) →
    ∀ (w : World α κ σ) (o : Op α κ σ), J w → ok w o = true → J ((World.perform spare expand o).after w)

section

variable {ok : World α κ σ → Op α κ σ → Bool} {J : World α κ σ → Prop}

theorem Prog.exec_endures {spare : Nat} (hJ : World.Endures spare ok J) {expand : ShapeId → Act α κ σ Unit}
    (he : ∀ s w, J w → J ((expand s).after w)) (p : Prog α κ σ β) :
    ∀ w, J w → J (((p.guarded ok).exec spare expand).after w) := by
  induction p with
  | done b => exact fun w hw => hw
  | fail e => exact fun w hw => hw
  | look f next ih => exact fun w hw => ih (f w) w hw
  | perform o next ih =>
    intro w hw
    unfold Act.after
    simp only [Prog.guarded, Prog.exec]
    cases hp : ok w o with
    | false => exact hw
    | true =>
      have hstep := hJ expand he w o hw hp
      simp only [if_true, Prog.exec]
      cases hr : World.perform spare expand o w with
      | error e v => exact Act.after_error hr ▸ hstep
      | ok x v => exact ih x v (Act.after_ok hr ▸ hstep)
  | attempt body next ihb ihn =>
    intro w hw
    have hbody := ihb w hw
    unfold Act.after
    simp only [Prog.guarded, Prog.exec]
    cases hr : (body.guarded ok).exec spare expand w with
    | error e v => exact ihn _ v (Act.after_error hr ▸ hbody)
    | ok x v => exact ihn _ v (Act.after_ok hr ▸ hbody)

theorem Grammar.expandWithin_endures {g : Grammar α κ σ} (hJ : World.Endures g.spare ok J) (depth : Nat) :
    ∀ s w, J w → J (((g.guarded ok).expandWithin depth s).after w) := by
  induction depth with
  | zero => exact fun s w hw => hw
  | succ depth ih =>
    intro s w hw
    unfold Act.after
    simp only [Grammar.expandWithin]
    cases w.shape? s with
    | none => exact hw
    | some x => exact Prog.exec_endures hJ ih (g.rule x.kind s) w hw

/-- **One run.** What every operation that passes the test keeps, a run keeps in which all do. -/
theorem Prog.HeedsBy.endures {g : Grammar α κ σ} {p : Prog α κ σ β} {w : World α κ σ} (hp : p.HeedsBy ok g w)
    (hJ : World.Endures g.spare ok J) (hw : J w) : J ((p.run g).after w) := by
  have hrun := Prog.exec_endures hJ (Grammar.expandWithin_endures hJ g.nesting) p w hw
  unfold HeedsBy Prog.run at hp
  unfold Act.after at hrun ⊢
  rw [Prog.run, ← hp]
  exact hrun

end

end SceneGrammar
