/-
The programs of an engine, run side by side in two worlds of a single root.

A relation of such worlds that all changes keep (`KeptByEngine`) is kept by the programs that an engine is driven with, in a
grammar of recipes: both runs end alike, with the same answer or the same fault, in worlds that are related again. One
lemma per program: `KeptByEngine.build`, `KeptByEngine.emit`, `KeptByEngine.serve`, `KeptByEngine.start`, and
`KeptByEngine.tick` for a whole tick. Delays and steps may be anything: where one run fails the other does, in the same way.
-/
import SceneGrammar.Proofs.Engine.SingleRoot

namespace SceneGrammar

variable {α κ σ β γ : Type} [Scalar α] [SymbolKind κ]

namespace World

variable {R : World α κ σ → World α κ σ → Prop} {g : Grammar α κ σ} {w v : World α κ σ}

/-! ## Programs in sequence -/

/-- one program after another -/
theorem Alike.bind {p : Prog α κ σ β} {f : β → Prog α κ σ γ} (h : Alike R (p.run g w) (p.run g v))
    (hf : ∀ x w v, R w v → Alike R ((f x).run g w) ((f x).run g v)) :
    Alike R ((p >>= f).run g w) ((p >>= f).run g v) := by
  rw [Prog.run_bind, Prog.run_bind]
  rcases h.cases with ⟨x, w', v', hw, hv, h'⟩ | ⟨e, w', v', hw, hv, h'⟩
  · rw [hw, hv]
    exact hf x w' v' h'
  · rw [hw, hv]
    exact ⟨rfl, h'⟩

/-- one program for each member of a list -/
theorem Alike.forM {f : β → Prog α κ σ PUnit} (xs : List β)
    (hf : ∀ x ∈ xs, ∀ w v, R w v → Alike R ((f x).run g w) ((f x).run g v)) (h : R w v) :
    Alike R ((xs.forM f).run g w) ((xs.forM f).run g v) := by
  induction xs generalizing w v with
  | nil => exact ⟨rfl, h⟩
  | cons x xs ih =>
    refine Alike.bind (f := fun _ => xs.forM f) (hf x List.mem_cons_self w v h) fun _ w v h => ?_
    exact ih (fun y hy => hf y (List.mem_cons_of_mem x hy)) h

/-- what is asked of the world first -/
theorem Alike.ask {f : World α κ σ → Except (Fault α) β} {k : β → Prog α κ σ γ} (h : R w v) (hf : f v = f w)
    (hk : ∀ x, f w = .ok x → Alike R ((k x).run g w) ((k x).run g v)) :
    Alike R ((Prog.ask f >>= k).run g w) ((Prog.ask f >>= k).run g v) := by
  rw [Prog.run_bind, Prog.run_bind]
  simp only [Prog.ask, Prog.run, Prog.exec, hf]
  cases hx : f w with
  | ok x => exact hk x hx
  | error e => exact ⟨rfl, h⟩

/-! ## Builds and reports -/

variable {S : RootData α κ} {ok : Int → Prop} {log : List Warning}

omit [Scalar α] [SymbolKind κ] in
theorem MuteEq.nameOf [SymbolKind κ] (h : MuteEq w v) (s : ShapeId) : v.nameOf s = w.nameOf s := by
  rw [eq_of_mute h]
  rfl

omit [Scalar α] [SymbolKind κ] in
theorem MuteEq.nodeOf [SymbolKind κ] (h : MuteEq w v) (s : ShapeId) : v.nodeOf s = w.nodeOf s := by
  rw [eq_of_mute h]
  rfl

/-- the loop goes on around the same trigger, and no other seeds are asked for -/
theorem KeptByEngine.changeLoop (hR : KeptByEngine S ok log R) (h : R w v) {f : Loop α → Loop α}
    (trigger : ∀ l, (f l).trigger = l.trigger)
    (requests : ∀ l, (∀ r ∈ l.requests, r.Meets ok) → ∀ r ∈ (f l).requests, r.Meets ok) :
    Alike R ((Engine.changeLoop f).run g w) ((Engine.changeLoop f).run g v) := by
  have hw := hR.singleRoot h
  obtain ⟨l, hl, hlt, hlr⟩ := hw.engine.loop
  have hl' : w.desk.loop = some l := hl
  rw [run_changeLoop, run_changeLoop, (hR.muteEq h).desk]
  refine ⟨rfl, hR.redesk _ h (hw.redesk hw.engine.trigger ⟨f l, ?_, (trigger l).trans hlt, requests l hlr⟩)⟩
  simp [Desk.mapLoop, hl']

/-- an event is reported, or there is nothing to report it of -/
theorem KeptByEngine.emit (hR : KeptByEngine S ok log R) (h : R w v) (s : ShapeId) (k : String → Happening α) :
    Alike R ((Engine.emit s k).run g w) ((Engine.emit s k).run g v) := by
  unfold Engine.emit
  refine Alike.ask h ((hR.muteEq h).nameOf s) fun name _ => ?_
  refine Alike.ask h ((hR.muteEq h).nodeOf s) fun n _ => ?_
  exact hR.changeLoop h (fun _ => rfl) fun _ => id

variable {recipe : κ → Recipe α κ Unit} (hg : ∀ kind s, g.rule kind s = (recipe kind).toProg s)

include hg in
/-- running the rule of a living symbol keeps the relation -/
theorem KeptByEngine.keeping (hR : KeptByEngine S ok log R) :
    Keeping R (g.expandWithin g.nesting) (g.expandWithin g.nesting) :=
  (expandWithin_sparing hR.keptByRecipes hg g.nesting).keeping

include hg in
/-- **A build.** -/
theorem KeptByEngine.build (hR : KeptByEngine S ok log R) (h : R w v) (delay : α) {seed : Option Int}
    (hs : ∀ x, seed = some x → ok x) :
    Alike R ((Engine.build S.trigger delay seed).run g w) ((Engine.build S.trigger delay seed).run g v) := by
  obtain ⟨t, ht, hroot, hsource⟩ := (hR.singleRoot h).engine.trigger
  have ht' : w.desk.triggers[S.trigger]? = some t := ht
  have hprime : Engine.prime t seed = (Prog.act (.reseed S.source seed) : Prog α κ σ Unit) := by
    unfold Engine.prime
    rw [hsource]
  unfold Engine.build
  rw [Prog.run_bind_ok (run_trigger ht'), Prog.run_bind_ok (run_trigger ((hR.muteEq h).desk ▸ ht')), hprime, hroot]
  refine Alike.bind ?_ fun _ w v h => Alike.bind ?_ fun _ w v h => ?_
  · rw [Prog.run_act, Prog.run_act]
    exact hR.reseed h hs
  · rw [Prog.run_act, Prog.run_act]
    exact hR.generate (hR.keeping hg) h (hR.singleRoot h).shapeAlive delay
  · -- the build is counted
    have hw := hR.singleRoot h
    obtain ⟨t, ht, hroot, hsource⟩ := hw.engine.trigger
    have ht' : w.desk.triggers[S.trigger]? = some t := ht
    show Alike R ((Prog.act (.setDesk (w.desk.mapTrigger _ _))).run g w) ((Prog.act (.setDesk (v.desk.mapTrigger _ _))).run g v)
    rw [(hR.muteEq h).desk]
    refine ⟨rfl, hR.redesk _ h (hw.redesk ⟨{ t with builds := t.builds + 1 }, ?_, hroot, hsource⟩ hw.engine.loop)⟩
    simp [Desk.mapTrigger, Array.getElem?_modify, ht']

include hg in
/-- a request is served and reported -/
theorem KeptByEngine.serve (hR : KeptByEngine S ok log R) (h : R w v) {r : Request α} (hr : r.Meets ok) :
    Alike R ((Engine.serve S.trigger S.shape r).run g w) ((Engine.serve S.trigger S.shape r).run g v) := by
  unfold Engine.serve
  exact Alike.bind (hR.build hg h r.delay hr) fun _ w v h => hR.emit h S.shape _

/-- an expansion is reported -/
theorem KeptByEngine.report (hR : KeptByEngine S ok log R) (h : R w v) (s : ShapeId) :
    Alike R ((Engine.reportExpansion s).run g w) ((Engine.reportExpansion s).run g v) := by
  have hcount : v.generatedBy s = w.generatedBy s := by rw [generatedBy, (hR.muteEq h).shape?, generatedBy]
  show Alike R ((Engine.emit s _).run g w) ((Engine.emit s fun name => .expanded name (v.generatedBy s).length).run g v)
  rw [hcount]
  exact hR.emit h s _

/-! ## The loop -/

theorem KeptByEngine.request (hR : KeptByEngine S ok log R) (h : R w v) {r : Request α} (hr : r.Meets ok) :
    Alike R ((Engine.request r).run g w) ((Engine.request r).run g v) := by
  refine hR.changeLoop h (fun _ => rfl) fun l hl q hq => ?_
  rcases List.mem_append.1 hq with hq | hq
  · exact hl q hq
  · exact List.mem_singleton.1 hq ▸ hr

include hg in
/-- **The start.** -/
theorem KeptByEngine.start (hR : KeptByEngine S ok log R) (h : R w v) :
    Alike R (Engine.start.run g w) (Engine.start.run g v) := by
  unfold Engine.start
  refine Alike.ask h (by rw [(hR.muteEq h).desk]) fun l hl => ?_
  have hloop : w.desk.loop = some l := by
    cases hd : w.desk.loop <;> simp_all
  obtain ⟨l', hl', htrigger, -⟩ := (hR.singleRoot h).engine.loop
  obtain rfl : l' = l := Option.some.inj (hl'.symm.trans hloop)
  refine Alike.bind (p := Prog.act (.setLive true)) ⟨rfl, hR.relive true h⟩ fun _ w v h => ?_
  refine Alike.bind (hR.changeLoop h (fun _ => rfl) fun _ => id) fun _ w v h => ?_
  split_ifs
  swap
  · exact ⟨rfl, h⟩
  rw [htrigger]
  refine Alike.ask h (by rw [(hR.muteEq h).desk]) fun t _ => ?_
  exact Alike.bind (hR.build hg h _ (by simp)) fun _ w v h => hR.emit h t.root _

include hg in
/-- **A tick.** -/
theorem KeptByEngine.tick (hR : KeptByEngine S ok log R) (h : R w v) (dt : Option α) :
    Alike R ((Engine.tick dt).run g w) ((Engine.tick dt).run g v) := by
  unfold Engine.tick
  obtain ⟨l, hl, htrigger, hrequests⟩ := (hR.singleRoot h).engine.loop
  have hl' : w.desk.loop = some l := hl
  rw [Prog.run_bind_ok (run_loop hl'), Prog.run_bind_ok (run_loop ((hR.muteEq h).desk ▸ hl')), htrigger]
  refine Alike.bind (hR.changeLoop h (fun _ => rfl) fun _ _ r hr => absurd hr List.not_mem_nil) fun _ w v h => ?_
  obtain ⟨t, ht, hroot, -⟩ := (hR.singleRoot h).engine.trigger
  have ht' : w.desk.triggers[S.trigger]? = some t := ht
  rw [Prog.run_bind_ok (run_trigger ht'), Prog.run_bind_ok (run_trigger ((hR.muteEq h).desk ▸ ht')), hroot]
  refine Alike.bind (Alike.forM l.requests (fun r hr w v h => hR.serve hg h (hrequests r hr)) h) fun _ w v h => ?_
  refine Alike.bind (p := Prog.act (.advance _)) ?_ fun xs w v h => ?_
  · rw [Prog.run_act, Prog.run_act]
    exact hR.advance (hR.keeping hg) h g.spare _
  refine Alike.bind (Alike.forM xs (fun s _ w v h => hR.report h s) h) fun _ w v h => ?_
  refine Alike.bind (hR.changeLoop h (fun _ => rfl) fun _ => id) fun _ w v h => ?_
  exact Alike.ask h (by rw [(hR.muteEq h).desk]) fun l _ => ⟨rfl, h⟩

end World

end SceneGrammar
