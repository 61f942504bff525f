/-
The moves that runs are made of.

While a program runs, rules run inside one another, and a world may be looked at in the midst of them. `Move ok w v` is
one move: an operation that runs no rules and passes the test `ok`, or one of the parts of the others, where a symbol is
placed, a rule begins or ends, the clock moves, or an appointment comes up. `Moves ok` is one move after another.

`moves_endure`: whatever passes the test adds moves to those that led to a world, provided that the rules it runs do.
Hence a run all of whose operations pass it is a sequence of moves (`Prog.HeedsBy.moves`), and what one move keeps, all
worlds have that are reached within the test (`Reached`), those in the midst of rules included.
-/
import SceneGrammar.Proofs.Upkeep

namespace SceneGrammar

variable {α κ σ β : Type}

/-- the operations that run no rules -/
def Op.isPlain : Op α κ σ → Bool
  | .createSymbol .. | .expand _ | .generate .. | .advance _ => false
  | _ => true

namespace World

variable [Scalar α] [SymbolKind κ]

/-- perform an operation that runs no rules -/
def does (o : Op α κ σ) : Act α κ σ o.Answer := perform 0 (fun _ w => .ok () w) o

theorem perform_plain {o : Op α κ σ} (ho : o.isPlain = true) (spare : Nat) (expand : ShapeId → Act α κ σ Unit) :
    perform spare expand o = does o := by
  cases o with
  | createSymbol | expand | generate | advance => cases ho
  | _ => rfl

/-- one move of a run -/
inductive Move (ok : World α κ σ → Op α κ σ → Bool) : World α κ σ → World α κ σ → Prop where
  | plain {w : World α κ σ} (o : Op α κ σ) : o.isPlain = true → ok w o = true → Move ok w ((does o).after w)
  /-- a symbol comes; its rule is yet to run -/
  | place {w : World α κ σ} (creator : ShapeId) (offer : KindOffer κ) (name : String) (parent : Option NodeId)
      (pose : Pose α) : ok w (.createSymbol creator offer name parent pose) = true →
      Move ok w ((placeSymbol creator offer name parent pose).after w)
  | begins {w : World α κ σ} (s : ShapeId) : Move ok w (w.markExpanded s)
  | finishes {w : World α κ σ} (s : ShapeId) : Move ok w (w.note (.finished s))
  | tick {w : World α κ σ} (dt : α) : Move ok w { w with agenda := w.agenda.tick dt }
  /-- an appointment comes up that was cancelled -/
  | drop {w : World α κ σ} {e : Appointment α} {a : Agenda α} : w.agenda.popDue = some (e, a) → e.cancelled = true →
      Move ok w { w with agenda := a }
  | settle {w : World α κ σ} {e : Appointment α} {a : Agenda α} : w.agenda.popDue = some (e, a) →
      e.cancelled = false → Move ok w { w with agenda := a.settle e.node }

/-- one move after another -/
abbrev Moves (ok : World α κ σ → Op α κ σ → Bool) : World α κ σ → World α κ σ → Prop := Relation.ReflTransGen (Move ok)

/-- a test that lets the parts of a regeneration pass if it lets the whole pass -/
structure Splits (ok : World α κ σ → Op α κ σ → Bool) : Prop where
  delete : ∀ w s delay, ok w (.generate s delay) = true → ok w (.deleteGenerated s) = true
  cancel : ∀ w s delay, ok w (.generate s delay) = true → ∀ v n, ok v (.cancel n) = true
  schedule : ∀ w s delay, ok w (.generate s delay) = true → ∀ v, ok v (.schedule s delay) = true

section

variable {ok : World α κ σ → Op α κ σ → Bool} {expand : ShapeId → Act α κ σ Unit} {w₀ w : World α κ σ}

theorem Moves.plain (m : Moves ok w₀ w) {o : Op α κ σ} (ho : o.isPlain = true) (hp : ok w o = true) :
    Moves ok w₀ ((does o).after w) := m.tail (.plain o ho hp)

theorem runExpansion_moves {s : ShapeId} (hrun : Moves ok w₀ ((expand s).after (w.markExpanded s))) :
    Moves ok w₀ ((runExpansion expand s).after w) := by
  unfold Act.after runExpansion
  cases hr : expand s (w.markExpanded s) with
  | error e v =>
    rw [Act.after_error hr] at hrun
    exact hrun
  | ok _ v =>
    rw [Act.after_ok hr] at hrun
    exact hrun.tail (.finishes s)

theorem createSymbol_moves (he : ∀ s w, Moves ok w₀ w → Moves ok w₀ ((expand s).after w)) (m : Moves ok w₀ w)
    {creator : ShapeId} {offer : KindOffer κ} {name : String} {parent : Option NodeId} {pose : Pose α}
    (hp : ok w (.createSymbol creator offer name parent pose) = true) :
    Moves ok w₀ ((createSymbol expand creator offer name parent pose).after w) := by
  have hplace := m.tail (.place creator offer name parent pose hp)
  unfold Act.after createSymbol
  cases hr : placeSymbol creator offer name parent pose w with
  | error e v =>
    rw [Act.after_error hr] at hplace
    exact hplace
  | ok s v =>
    rw [Act.after_ok hr] at hplace
    have hrun := runExpansion_moves (he s _ (hplace.tail (.begins s)))
    simp only
    split_ifs
    · cases hx : runExpansion expand s v with
      | error e u => exact Act.after_error hx ▸ hrun
      | ok _ u => exact Act.after_ok hx ▸ hrun
    · exact hplace

theorem generate_moves (hok : Splits ok) (he : ∀ s w, Moves ok w₀ w → Moves ok w₀ ((expand s).after w))
    (m : Moves ok w₀ w) {s : ShapeId} {delay : α} (hp : ok w (.generate s delay) = true) :
    Moves ok w₀ ((generate expand s delay).after w) := by
  have hdelete : Moves ok w₀ ((deleteGenerated s).after w) :=
    m.plain (o := .deleteGenerated s) rfl (hok.delete w s delay hp)
  unfold Act.after generate
  by_cases hd : delay < Scalar.zero
  · rw [if_pos hd]
    exact m
  rw [if_neg hd]
  cases hr : deleteGenerated s w with
  | error e v =>
    rw [Act.after_error hr] at hdelete
    exact hdelete
  | ok _ v =>
    rw [Act.after_ok hr] at hdelete
    simp only
    cases v.nodeOf s with
    | error e => exact hdelete
    | ok n =>
      have hcancel : Moves ok w₀ { v with agenda := (v.agenda.cancel n).2 } :=
        hdelete.plain (o := .cancel n) rfl (hok.cancel w s delay hp v n)
      simp only
      split_ifs
      · exact runExpansion_moves (he s _ (hcancel.tail (.begins s)))
      · exact hcancel.plain (o := .schedule s delay) rfl (hok.schedule w s delay hp _)

theorem runDue_moves (he : ∀ s w, Moves ok w₀ w → Moves ok w₀ ((expand s).after w)) (passes : Nat)
    (done : List ShapeId) (m : Moves ok w₀ w) : Moves ok w₀ ((runDue expand passes done).after w) := by
  unfold Act.after
  induction passes generalizing done w with
  | zero =>
    cases hp : w.agenda.popDue with
    | none => exact runDue_none hp ▸ m
    | some p => exact runDue_zero hp ▸ m
  | succ passes ih =>
    cases hp : w.agenda.popDue with
    | none => exact runDue_none hp ▸ m
    | some p =>
      obtain ⟨e, a⟩ := p
      cases hc : e.cancelled with
      | true =>
        rw [runDue_cancelled hp hc]
        exact ih done (m.tail (.drop hp hc))
      | false =>
        have hsettle := m.tail (.settle hp hc)
        by_cases halive : w.shapeAlive e.shape = true
        · have hrun := runExpansion_moves (he e.shape _ (hsettle.tail (.begins e.shape)))
          cases hr : runExpansion expand e.shape { w with agenda := a.settle e.node } with
          | error x v =>
            rw [runDue_failed hp hc halive hr]
            exact Act.after_error hr ▸ hrun
          | ok _ v =>
            rw [runDue_run hp hc halive hr]
            exact ih _ (Act.after_ok hr ▸ hrun)
        · rw [runDue_dropped hp hc halive]
          exact ih done hsettle

/-- **One operation.** What passes the test adds moves, if the rules that it runs do. -/
theorem moves_endure (hok : Splits ok) (w₀ : World α κ σ) (spare : Nat) : Endures spare ok (Moves ok w₀) := by
  intro expand he w o m hp
  cases o with
  | createSymbol creator offer name parent pose => exact createSymbol_moves he m hp
  | expand s => exact he s w m
  | generate s delay => exact generate_moves hok he m hp
  | advance dt =>
    simp only [perform, Act.after, advance]
    split_ifs
    · exact m
    · exact runDue_moves he _ [] (m.tail (.tick dt))
  | _ =>
    rw [perform_plain rfl]
    exact m.plain rfl hp

end

/-- what comes about within a test from a world in which nothing has happened, in the midst of rules or not -/
def Reached (ok : World α κ σ → Op α κ σ → Bool) (w : World α κ σ) : Prop := ∃ w₀, w₀.Pristine ∧ Moves ok w₀ w

section

variable {ok : World α κ σ → Op α κ σ → Bool} {w v : World α κ σ}

theorem Reached.start (h : w.Pristine) : Reached ok w := ⟨w, h, .refl⟩

theorem Reached.moves (h : Reached ok w) (m : Moves ok w v) : Reached ok v := by
  obtain ⟨w₀, hw₀, hm⟩ := h
  exact ⟨w₀, hw₀, hm.trans m⟩

/-- **Invariants.** What holds at the start and is kept by every move holds in all that is reached. -/
theorem Reached.invariant {J : World α κ σ → Prop} (h : Reached ok w) (start : ∀ w, w.Pristine → J w)
    (step : ∀ w v, J w → Move ok w v → J v) : J w := by
  obtain ⟨w₀, hw₀, hm⟩ := h
  induction hm with
  | refl => exact start w₀ hw₀
  | tail _ hmove ih => exact step _ _ ih hmove

end

end World

open World

/-! ## Programs that pass a test wherever they run -/

/-- a program all of whose operations pass a test in any world -/
def Prog.Passes (ok : World α κ σ → Op α κ σ → Bool) {β : Type} : Prog α κ σ β → Prop
  | .done _ => True
  | .fail _ => True
  | .look _ next => ∀ x, (next x).Passes ok
  | .perform o next => (∀ w, ok w o = true) ∧ ∀ x, (next x).Passes ok
  | .attempt body next => body.Passes ok ∧ ∀ r, (next r).Passes ok

section

variable {ok : World α κ σ → Op α κ σ → Bool}

@[simp] theorem Prog.passes_done (b : β) : (Prog.done b : Prog α κ σ β).Passes ok := trivial

@[simp] theorem Prog.passes_fail (e : Fault α) : (Prog.fail e : Prog α κ σ β).Passes ok := trivial

@[simp] theorem Prog.passes_perform {o : Op α κ σ} {next : o.Answer → Prog α κ σ β} :
    (Prog.perform o next).Passes ok ↔ (∀ w, ok w o = true) ∧ ∀ x, (next x).Passes ok := Iff.rfl

theorem Prog.Passes.bind {p : Prog α κ σ β} {γ : Type} {f : β → Prog α κ σ γ} (hp : p.Passes ok) (hf : ∀ b, (f b).Passes ok) :
    (p >>= f).Passes ok := by
  induction p with
  | done b => exact hf b
  | fail e => trivial
  | look f next ih => exact fun x => ih x (hp x) hf
  | perform o next ih => exact ⟨hp.1, fun x => ih x (hp.2 x) hf⟩
  | attempt body next _ ih => exact ⟨hp.1, fun r => ih r (hp.2 r) hf⟩

end

variable [Scalar α] [SymbolKind κ] {ok : World α κ σ → Op α κ σ → Bool}

/-! ## Runs -/

/-- **One run.** What a program does is a sequence of moves, if all its operations pass the test. -/
theorem Prog.HeedsBy.moves {g : Grammar α κ σ} {p : Prog α κ σ β} {w : World α κ σ} (hp : p.HeedsBy ok g w)
    (hok : Splits ok) : Moves ok w ((p.run g).after w) := hp.endures (moves_endure hok w g.spare) .refl

/-- what is reached, a run may start from -/
theorem World.Reached.run {w : World α κ σ} (h : Reached ok w) (hok : Splits ok) {g : Grammar α κ σ}
    {p : Prog α κ σ β} (hp : p.HeedsBy ok g w) : Reached ok ((p.run g).after w) := h.moves (hp.moves hok)

/-- an operation that passes a test, and runs no rule or one all of whose operations do, may stand before the rest -/
theorem Prog.heedsBy_perform {g : Grammar α κ σ} {o : Op α κ σ} {next : o.Answer → Prog α κ σ β} {w : World α κ σ}
    (hp : ok w o = true)
    (hrun : World.perform g.spare ((g.guarded ok).expandWithin g.nesting) o w =
      World.perform g.spare (g.expandWithin g.nesting) o w)
    (hnext : match World.perform g.spare (g.expandWithin g.nesting) o w with
      | .ok x v => (next x).HeedsBy ok g v
      | .error _ _ => True) : (Prog.perform o next).HeedsBy ok g w := by
  have hsame := Prog.exec_guarded_perform hp hrun fun x v hr => by
    rw [hr] at hnext
    exact hnext
  exact hsame

theorem Prog.Passes.exec_guarded {p : Prog α κ σ β} (hp : p.Passes ok) (spare : Nat)
    (expand : ShapeId → Act α κ σ Unit) : (p.guarded ok).exec spare expand = p.exec spare expand := by
  induction p with
  | done b => rfl
  | fail e => rfl
  | look f next ih => exact funext fun w => congrFun (ih (f w) (hp (f w))) w
  | perform o next ih =>
    funext w
    simp only [guarded, exec, hp.1 w, if_true, fun x => ih x (hp.2 x)]
  | attempt body next ihb ihn =>
    funext w
    simp only [guarded, exec, ihb hp.1, fun r => ihn r (hp.2 r)]

/-- rules that pass a test wherever they run are the same when the rest is refused -/
theorem Grammar.expandWithin_guarded {g : Grammar α κ σ} (hg : ∀ kind s, (g.rule kind s).Passes ok) (depth : Nat) :
    (g.guarded ok).expandWithin depth = g.expandWithin depth := by
  induction depth with
  | zero => rfl
  | succ depth ih =>
    funext s w
    simp only [Grammar.expandWithin, ih]
    cases w.shape? s with
    | none => rfl
    | some x => exact congrFun ((hg x.kind s).exec_guarded g.spare _) w

theorem Prog.Passes.heedsBy {g : Grammar α κ σ} {p : Prog α κ σ β} (hp : p.Passes ok)
    (hg : ∀ kind s, (g.rule kind s).Passes ok) (w : World α κ σ) : p.HeedsBy ok g w := by
  have hexpand : (g.guarded ok).expandWithin g.nesting = g.expandWithin g.nesting := Grammar.expandWithin_guarded hg _
  show (p.guarded ok).exec g.spare ((g.guarded ok).expandWithin g.nesting) w = _
  rw [hexpand, hp.exec_guarded]
  rfl

end SceneGrammar
