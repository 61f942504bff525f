/-
What rules may ask of the agenda, and what it keeps in return.

A pace says which delays may be planned with, which steps the clock may be moved by, and when the agenda may be cleared;
everything else is permitted (`Pace.permits`), and so is a call that is refused for a negative delay. `Upholds`: a property
of agendas that all changes keep which are made at this pace. Then all operations keep it that are permitted, if the rules
that they run do (`Upholds.endures`), and hence whole runs do (`Attained.upholds`) and expansions (`Upholds.runExpansion`),
however they end.

`ExactTimes`: times that are added without rounding.
-/
import SceneGrammar.Proofs.Engine.Root
import SceneGrammar.Proofs.Housed
import SceneGrammar.Proofs.Surroundings

namespace SceneGrammar

variable {α κ σ β : Type}

/-! ## Exact times -/

/-- times that are added exactly -/
class ExactTimes (α : Type) [Scalar α] : Prop extends OrderedScalar α where
  add_assoc : ∀ a b c : α, a + b + c = a + (b + c)
  add_zero : ∀ a : α, a + Scalar.zero = a
  add_lt_add : ∀ a b c : α, b < c → a + b < a + c

namespace ExactTimes

variable [Scalar α] [ExactTimes α] {a b t : α}

theorem eq_zero_or_pos (h : ¬ a < Scalar.zero) : a = Scalar.zero ∨ Scalar.zero < a :=
  ((OrderedScalar.lt_connex a Scalar.zero).resolve_left h)

theorem lt_add (h : Scalar.zero < b) : t < t + b := by
  have hlt := add_lt_add t _ _ h
  rwa [add_zero] at hlt

/-- time does not go back -/
theorem le_add (h : a ≤ t) (hb : ¬ b < Scalar.zero) : a ≤ t + b := by
  rcases eq_zero_or_pos hb with rfl | hpos
  · rwa [add_zero]
  · rw [OrderedScalar.le_iff] at h ⊢
    exact fun hlt => h (OrderedScalar.lt_trans _ _ _ (lt_add hpos) hlt)

theorem not_neg_add (ha : ¬ a < Scalar.zero) (hb : ¬ b < Scalar.zero) : ¬ a + b < Scalar.zero := by
  rw [← OrderedScalar.le_iff] at ha ⊢
  exact le_add ha hb

end ExactTimes

instance : ExactTimes ℚ where
  beq_iff := ExactScalar.beq_iff
  lt_irrefl := lt_irrefl
  lt_trans _ _ _ := lt_trans
  lt_connex := lt_trichotomy
  le_iff _ _ := not_lt.symm
  add_assoc := Rat.add_assoc
  add_zero a := by
    show a + ((0 : Int) : ℚ) = a
    simp
  add_lt_add a _ _ := (add_lt_add_iff_left a).2

/-! ## Paces -/

/-- what may be asked of an agenda -/
structure Pace (α : Type) where
  /-- the delays that may be planned with -/
  plans : α → Bool
  /-- the steps that the clock may be moved by -/
  ticks : α → Bool
  /-- whether the agenda may be cleared -/
  clears : Agenda α → Bool

/-- the operations that keep a pace, or are refused for a negative delay -/
def Pace.permits [Scalar α] (p : Pace α) (w : World α κ σ) : Op α κ σ → Bool
  | .schedule _ delay => delay < Scalar.zero || p.plans delay
  | .generate _ delay => delay < Scalar.zero || (delay == Scalar.zero || !w.live) || p.plans delay
  | .advance dt => dt < Scalar.zero || p.ticks dt
  | .clear => p.clears w.agenda
  | .clearAgenda => p.clears w.agenda
  | _ => true

/-- a property of agendas that every change keeps which is made at a pace -/
structure Agenda.Upholds [Scalar α] (p : Pace α) (I : Agenda α → Prop) : Prop where
  cancel : ∀ {a : Agenda α} (n : Nat), I a → I (a.cancel n).2
  clear : ∀ {a : Agenda α}, I a → p.clears a = true → I a.clear
  schedule : ∀ {a : Agenda α} (n s : Nat) (delay : α), I a → ¬ delay < Scalar.zero → p.plans delay = true →
    I (a.schedule n s delay)
  tick : ∀ {a : Agenda α} (dt : α), I a → ¬ dt < Scalar.zero → p.ticks dt = true → I (a.tick dt)
  drop : ∀ {a b : Agenda α} {e : Appointment α}, I a → a.popDue = some (e, b) → e.cancelled = true → I b
  settle : ∀ {a b : Agenda α} {e : Appointment α}, I a → a.popDue = some (e, b) → e.cancelled = false → I (b.settle e.node)

/-- what runs that pass a test make of a world with an empty agenda at time zero -/
inductive World.Attained [Scalar α] [SymbolKind κ] (ok : World α κ σ → Op α κ σ → Bool) : World α κ σ → Prop where
  | start {w : World α κ σ} : w.agenda = .empty → Attained ok w
  | run {w : World α κ σ} {β : Type} (g : Grammar α κ σ) (p : Prog α κ σ β) :
      Attained ok w → p.HeedsBy ok g w → Attained ok ((p.run g).after w)

namespace Agenda

open World

variable [Scalar α] {p : Pace α} {I : Agenda α → Prop}

/-- what drops appointments alone keeps the property -/
theorem Upholds.blind (h : Upholds p I) {a : Act α κ σ β} (ha : a.Blind) {w : World α κ σ} (hw : I w.agenda) :
    I (a.after w).agenda := by
  obtain ⟨es, hafter⟩ := ha.after_rebook w
  have hagenda : (a.after w).agenda = w.cancelAll (endedIn es) w.agenda := congrArg World.agenda (hafter w.agenda)
  rw [hagenda]
  exact cancelAll_keeps (fun _ n => h.cancel n) w _ hw

variable [SymbolKind κ]

theorem Upholds.schedules (h : Upholds p I) {w : World α κ σ} (hw : I w.agenda) (s : ShapeId) {delay : α}
    (hp : ¬ delay < Scalar.zero → p.plans delay = true) : I ((World.schedule s delay).after w).agenda := by
  unfold Act.after World.schedule
  split_ifs with hd
  · exact hw
  · cases w.nodeOf s with
    | error e => exact hw
    | ok n => exact h.schedule n s delay hw hd (hp hd)

/-- an operation that runs no rules keeps the property at the pace -/
theorem Upholds.plain (h : Upholds p I) {o : Op α κ σ} (ho : o.isPlain = true) {w : World α κ σ} (hw : I w.agenda)
    (hp : p.permits w o = true) : I ((does o).after w).agenda := by
  have hidle (hi : o.Idle) : I ((does o).after w).agenda := h.blind (perform_blind 0 _ hi) hw
  cases o with
  | createSymbol | expand | generate | advance => cases ho
  | schedule s delay =>
    refine h.schedules hw s fun hd => ?_
    simpa [Pace.permits, hd] using hp
  | cancel n => exact h.cancel n hw
  | clearAgenda => exact h.clear hw hp
  | clear => exact h.blind blind_sweep (w := w.rebook w.agenda.clear) (h.clear hw hp)
  | _ => exact hidle trivial

section

variable {expand : ShapeId → Act α κ σ Unit} (h : Upholds p I) (he : ∀ s w, I w.agenda → I ((expand s).after w).agenda)

include he

omit [Scalar α] [SymbolKind κ] in
theorem runExpansion_upholds (s : ShapeId) {w : World α κ σ} (hw : I w.agenda) :
    I ((World.runExpansion expand s).after w).agenda := by
  have hrun := he s (w.markExpanded s) hw
  unfold Act.after World.runExpansion
  cases hr : expand s (w.markExpanded s) with
  | error e v => exact Act.after_error hr ▸ hrun
  | ok _ v =>
    rw [Act.after_ok hr] at hrun
    exact hrun

include h

theorem Upholds.createSymbol (creator : ShapeId) (offer : KindOffer κ) (name : String) (parent : Option NodeId)
    (pose : Pose α) {w : World α κ σ} (hw : I w.agenda) :
    I ((World.createSymbol expand creator offer name parent pose).after w).agenda := by
  have hplace := h.blind (blind_placeSymbol creator offer name parent pose) hw
  unfold Act.after World.createSymbol
  cases hr : placeSymbol creator offer name parent pose w with
  | error e v => exact Act.after_error hr ▸ hplace
  | ok s v =>
    rw [Act.after_ok hr] at hplace
    have hrun := runExpansion_upholds he s hplace
    simp only
    split_ifs
    · cases hx : World.runExpansion expand s v with
      | error e u => exact Act.after_error hx ▸ hrun
      | ok _ u => exact Act.after_ok hx ▸ hrun
    · exact hplace

theorem Upholds.generate (s : ShapeId) {delay : α} {w : World α κ σ} (hw : I w.agenda)
    (hp : p.permits w (.generate s delay) = true) : I ((World.generate expand s delay).after w).agenda := by
  have hdelete := h.blind (blind_deleteGenerated s) hw
  unfold Act.after World.generate
  by_cases hd : delay < Scalar.zero
  · rw [if_pos hd]
    exact hw
  rw [if_neg hd]
  cases hr : deleteGenerated s w with
  | error e v =>
    rw [Act.after_error hr] at hdelete
    exact hdelete
  | ok _ v =>
    rw [Act.after_ok hr] at hdelete
    simp only
    cases v.nodeOf s with
    | error e => exact hdelete
    | ok n =>
      have hcancel : I (v.rebook (v.agenda.cancel n).2).agenda := h.cancel n hdelete
      have hlive : v.live = w.live := congrArg Surroundings.live ((deleteGenerated_secluded s).ok hr)
      simp only
      split_ifs with hnow
      · exact runExpansion_upholds he s hcancel
      · refine h.schedules hcancel s fun _ => ?_
        rw [hlive, Bool.not_eq_true] at hnow
        simpa [Pace.permits, hd, hnow] using hp

omit [SymbolKind κ] in
theorem Upholds.runDue (passes : Nat) (done : List ShapeId) {w : World α κ σ} (hw : I w.agenda) :
    I ((World.runDue expand passes done).after w).agenda := by
  induction passes generalizing done w with
  | zero =>
    cases hp : w.agenda.popDue with
    | none => rwa [Act.after_ok (runDue_none hp)]
    | some q => rwa [Act.after_error (runDue_zero hp)]
  | succ passes ih =>
    cases hp : w.agenda.popDue with
    | none => rwa [Act.after_ok (runDue_none hp)]
    | some q =>
      obtain ⟨e, a⟩ := q
      cases hc : e.cancelled with
      | true =>
        rw [Act.after_congr (runDue_cancelled hp hc)]
        exact ih done (h.drop hw hp hc)
      | false =>
        have hsettle : I (w.rebook (a.settle e.node)).agenda := h.settle hw hp hc
        by_cases halive : w.shapeAlive e.shape = true
        · have hrun := runExpansion_upholds he e.shape hsettle
          cases hr : World.runExpansion expand e.shape { w with agenda := a.settle e.node } with
          | error x v =>
            rw [Act.after_error (runDue_failed hp hc halive hr)]
            exact Act.after_error hr ▸ hrun
          | ok _ v =>
            rw [Act.after_congr (runDue_run hp hc halive hr)]
            exact ih _ (Act.after_ok hr ▸ hrun)
        · rw [Act.after_congr (runDue_dropped hp hc halive)]
          exact ih done hsettle

omit [SymbolKind κ] in
theorem Upholds.advance (spare : Nat) {dt : α} {w : World α κ σ} (hw : I w.agenda)
    (hp : ¬ dt < Scalar.zero → p.ticks dt = true) : I ((World.advance expand spare dt).after w).agenda := by
  unfold Act.after World.advance
  split_ifs with hd
  · exact hw
  · exact h.runDue he _ [] (h.tick dt hw hd (hp hd))

end

/-- **One operation.** What is permitted at a pace keeps the property, if the rules that it runs do. -/
theorem Upholds.endures (h : Upholds p I) (spare : Nat) :
    Endures spare p.permits fun w : World α κ σ => I w.agenda := by
  intro expand he w o hw hp
  cases o with
  | createSymbol creator offer name parent pose => exact h.createSymbol he creator offer name parent pose hw
  | expand s => exact he s w hw
  | generate s delay => exact h.generate he s hw hp
  | advance dt =>
    refine h.advance he spare hw fun hd => ?_
    simpa [Pace.permits, hd] using hp
  | _ =>
    show I ((perform spare expand _).after w).agenda
    rw [perform_plain rfl]
    exact h.plain rfl hw hp

/-- an expansion keeps the property if its rules fail where they would not keep the pace -/
theorem Upholds.runExpansion (h : Upholds p I) (g : Grammar α κ σ) (depth : Nat) (s : ShapeId) {w : World α κ σ}
    (hw : I w.agenda) : I ((World.runExpansion ((g.guarded p.permits).expandWithin depth) s).after w).agenda :=
  runExpansion_upholds (Grammar.expandWithin_endures (h.endures g.spare) depth) s hw

end Agenda

/-- **Whole runs.** What an empty agenda has at time zero and every change at a pace keeps, all agendas have that runs at
this pace come to. -/
theorem World.Attained.upholds [Scalar α] [SymbolKind κ] {p : Pace α} {w : World α κ σ} (hw : Attained p.permits w)
    {I : Agenda α → Prop} (h : Agenda.Upholds p I) (hempty : I .empty) : I w.agenda := by
  induction hw with
  | start h₀ => exact h₀ ▸ hempty
  | run g q _ hq ih => exact hq.endures (h.endures g.spare) ih

/-! ## In the midst of rules -/

/-- the pace at which anything goes -/
def Pace.any : Pace α := ⟨fun _ => true, fun _ => true, fun _ => true⟩

/-- a test that everything passes -/
theorem Prog.passes_of_forall [Scalar α] {ok : World α κ σ → Op α κ σ → Bool} (h : ∀ w o, ok w o = true)
    (p : Prog α κ σ β) : p.Passes ok := by
  induction p with
  | done | fail => trivial
  | look f next ih => exact ih
  | perform o next ih => exact ⟨fun w => h w o, ih⟩
  | attempt body next ihb ihn => exact ⟨ihb, ihn⟩

theorem Pace.any_permits [Scalar α] (w : World α κ σ) (o : Op α κ σ) : any.permits w o = true := by
  cases o <;> simp [permits, any]

namespace World

variable [Scalar α] [SymbolKind κ] {ok : World α κ σ → Op α κ σ → Bool} {I : Agenda α → Prop} {w v : World α κ σ}

theorem Move.upholds (m : Move ok w v) (h : Agenda.Upholds Pace.any I)
    (htick : ∀ (a : Agenda α) (dt : α), I a → I (a.tick dt)) (hw : I w.agenda) : I v.agenda := by
  cases m with
  | plain o ho _ => exact h.plain ho hw (Pace.any_permits w o)
  | place creator offer name parent pose _ => exact h.blind (blind_placeSymbol creator offer name parent pose) hw
  | begins | finishes => exact hw
  | tick dt => exact htick _ dt hw
  | drop hp hc => exact h.drop hw hp hc
  | settle hp hc => exact h.settle hw hp hc

/-- whatever is run, its end is reached -/
theorem Pristine.reached_run (hw : w.Pristine) (g : Grammar α κ σ) (p : Prog α κ σ β) :
    Reached (fun _ _ => true) ((p.run g).after w) :=
  (Reached.start hw).run ⟨fun _ _ _ _ => rfl, fun _ _ _ _ _ _ => rfl, fun _ _ _ _ _ => rfl⟩
    ((p.passes_of_forall fun _ _ => rfl).heedsBy (fun kind s => (g.rule kind s).passes_of_forall fun _ _ => rfl) w)

/-- what every change keeps, all agendas have that are reached from one without appointments -/
theorem Reached.upholds (hw : Reached ok w) (h : Agenda.Upholds Pace.any I)
    (htick : ∀ (a : Agenda α) (dt : α), I a → I (a.tick dt))
    (hempty : ∀ a : Agenda α, a.heap = #[] → a.pending = [] → I a) : I w.agenda :=
  hw.invariant (fun w hw => hempty w.agenda hw.heap hw.pending) fun _ _ hu m => m.upholds h htick hu

end World

end SceneGrammar
