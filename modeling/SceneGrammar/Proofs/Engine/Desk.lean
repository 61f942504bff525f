/-
Who leaves the desk alone.

The desk, with its triggers, its loop and the requests that wait, belongs to no scene. `Act.KeepsDesk` says of an
operation that it leaves the desk as it is, also where it fails, and `Act.Keeps k` that it leaves alone what `k` sees of
the desk. All operations do but the one that puts a new desk there (`perform_keeps`), if the rules that they run do; so do
programs that never use that one (`Prog.Deskless.exec`), recipes among them (`Recipe.toProg_deskless`), and rules that are
such programs (`expandWithin_keepsDesk`).
-/
import SceneGrammar.Proofs.Growth.Recipe
import SceneGrammar.Proofs.Surroundings

namespace SceneGrammar

variable {α κ σ β γ : Type} {k : Desk α → γ}

/-- whether an act fails or not, it leaves the desk alone -/
def Act.KeepsDesk (a : Act α κ σ β) : Prop := ∀ w : World α κ σ, (a.after w).desk = w.desk

/-- whether an act fails or not, it leaves alone what is seen of the desk -/
def Act.Keeps (k : Desk α → γ) (a : Act α κ σ β) : Prop := ∀ w : World α κ σ, k (a.after w).desk = k w.desk

theorem Act.Keeps.ok {a : Act α κ σ β} (h : a.Keeps k) {w v : World α κ σ} {b : β} (hv : a w = .ok b v) :
    k v.desk = k w.desk := by rw [← h w, Act.after_ok hv]

theorem Act.Keeps.error {a : Act α κ σ β} (h : a.Keeps k) {w v : World α κ σ} {e : Fault α}
    (hv : a w = .error e v) : k v.desk = k w.desk := by rw [← h w, Act.after_error hv]

/-- the desk is one of the surroundings of a scene -/
theorem Act.Secluded.keeps {a : Act α κ σ β} (h : a.Secluded) : a.Keeps k := fun w =>
  congrArg (fun x => k x.desk) (h w)

namespace World

/-! ## Operations that run no rules -/

theorem reseed_keeps (i : SourceId) (seed : Option Int) : (reseed i seed : Act α κ σ Unit).Keeps k := by
  intro w
  rcases reseed_after w i seed with h | ⟨r, e, h⟩ <;> rw [h]
  rfl

section

variable [SymbolKind κ]

theorem randomInt_keeps (s : ShapeId) (low high : Int) : (randomInt s low high : Act α κ σ Int).Keeps k := by
  intro w
  rcases randomInt_after w s low high with h | ⟨i, r, e, -, h⟩ <;> rw [h]
  rfl

theorem randomFraction_keeps (s : ShapeId) : (randomFraction s : Act α κ σ Nat).Keeps k := by
  intro w
  rcases randomFraction_after w s with h | ⟨i, r, e, -, h⟩ <;> rw [h]
  rfl

end

/-! ## Operations that run rules -/

section

variable {expand : ShapeId → Act α κ σ Unit} (he : ∀ s, (expand s).Keeps k)

include he

theorem runExpansion_keeps (s : ShapeId) : (runExpansion expand s).Keeps k := by
  intro w
  unfold Act.after runExpansion
  cases hr : expand s (w.markExpanded s) with
  | ok b v => exact ((he s).ok hr : k v.desk = k (w.markExpanded s).desk)
  | error e v => exact ((he s).error hr : k v.desk = k (w.markExpanded s).desk)

theorem createSymbol_keeps [SymbolKind κ] (creator : ShapeId) (offer : KindOffer κ) (name : String)
    (parent : Option NodeId) (pose : Pose α) : (createSymbol expand creator offer name parent pose).Keeps k := by
  intro w
  have hplace : (placeSymbol creator offer name parent pose : Act α κ σ ShapeId).Keeps k :=
    (placeSymbol_secluded creator offer name parent pose).keeps
  unfold Act.after createSymbol
  cases hp : placeSymbol creator offer name parent pose w with
  | error e v => exact hplace.error hp
  | ok s v =>
    have hv := hplace.ok hp
    by_cases hea : v.eager = true
    · simp only [if_pos hea]
      cases hr : runExpansion expand s v with
      | ok b u => exact ((runExpansion_keeps he s).ok hr).trans hv
      | error e u => exact ((runExpansion_keeps he s).error hr).trans hv
    · simp only [if_neg hea]
      exact hv

variable [Scalar α]

theorem generate_keeps [SymbolKind κ] (s : ShapeId) (delay : α) : (generate expand s delay).Keeps k := by
  intro w
  unfold Act.after generate
  split_ifs
  · rfl
  · cases hd : deleteGenerated s w with
    | error e v => exact (deleteGenerated_secluded s).keeps.error hd
    | ok b v =>
      have hv : k v.desk = k w.desk := (deleteGenerated_secluded s).keeps.ok hd
      simp only
      rcases v.nodeOf s with e | n
      · exact hv
      · simp only
        split_ifs
        · exact (runExpansion_keeps he s { v with agenda := (v.agenda.cancel n).2 }).trans hv
        · exact ((schedule_secluded s delay).keeps { v with agenda := (v.agenda.cancel n).2 }).trans hv

theorem runDue_keeps (passes : Nat) (done : List ShapeId) : (runDue expand passes done).Keeps k := by
  induction passes generalizing done with
  | zero =>
    intro w
    cases hp : w.agenda.popDue with
    | none => rw [Act.after_ok (runDue_none hp)]
    | some p => rw [Act.after_error (runDue_zero hp)]
  | succ passes ih =>
    intro w
    cases hp : w.agenda.popDue with
    | none => rw [Act.after_ok (runDue_none hp)]
    | some p =>
      obtain ⟨e, a⟩ := p
      cases hc : e.cancelled with
      | true =>
        rw [Act.after_congr (runDue_cancelled hp hc)]
        exact ih done _
      | false =>
        by_cases halive : w.shapeAlive e.shape = true
        · have hrun := runExpansion_keeps he e.shape
          cases hr : runExpansion expand e.shape { w with agenda := a.settle e.node } with
          | ok b v =>
            rw [Act.after_congr (runDue_run hp hc halive hr)]
            calc k ((runDue expand passes (e.shape :: done)).after v).desk
                _ = k v.desk := ih (e.shape :: done) v
                _ = k { w with agenda := a.settle e.node }.desk := hrun.ok hr
                _ = k w.desk := rfl
          | error x v =>
            rw [Act.after_error (runDue_failed hp hc halive hr)]
            have hfailed : k v.desk = k { w with agenda := a.settle e.node }.desk := hrun.error hr
            exact hfailed
        · rw [Act.after_congr (runDue_dropped hp hc halive)]
          exact ih done _

theorem advance_keeps (spare : Nat) (dt : α) : (advance expand spare dt).Keeps k := by
  intro w
  unfold Act.after advance
  split_ifs
  · rfl
  · exact runDue_keeps he _ [] _

end

end World

/-! ## Operations -/

/-- an operation that puts another desk there -/
def Op.SetsDesk : Op α κ σ → Prop
  | .setDesk _ => True
  | _ => False

/-- a program that never puts another desk there -/
def Prog.Deskless {β : Type} : Prog α κ σ β → Prop
  | .done _ => True
  | .fail _ => True
  | .look _ next => ∀ x, (next x).Deskless
  | .perform o next => ¬ o.SetsDesk ∧ ∀ x, (next x).Deskless
  | .attempt body next => body.Deskless ∧ ∀ r, (next r).Deskless

section

variable [Scalar α] [SymbolKind κ]

/-- **One operation.** Only one kind of operation touches the desk itself. -/
theorem World.perform_keeps (spare : Nat) {expand : ShapeId → Act α κ σ Unit} (he : ∀ s, (expand s).Keeps k)
    {o : Op α κ σ} (ho : ¬ o.SetsDesk) : (World.perform spare expand o).Keeps k := by
  cases o with
  | createNode name parent pose => exact (createNode_secluded name parent pose).keeps
  | instantiate t parent pose => exact (instantiate_secluded t parent pose).keeps
  | reparent n parent => exact fun w => congrArg (fun x => k x.desk) (surroundings_reparent w n parent)
  | destroy n => exact (destroy_secluded n).keeps
  | clearScene => exact fun w => (destroyAll_secluded w.roots).keeps w
  | clear => exact clear_secluded.keeps
  | register t => exact fun w => rfl
  | newShape kind => exact fun w => rfl
  | bind s n rootKey => exact fun w => congrArg (fun x => k x.desk) (surroundings_bind w s n rootKey)
  | createRoot offer name parent pose source => exact (createRoot_secluded offer name parent pose source).keeps
  | createSymbol creator offer name parent pose => exact createSymbol_keeps he creator offer name parent pose
  | spawn creator template parent pose => exact (spawn_secluded creator template parent pose).keeps
  | track s n => exact fun w => rfl
  | expand s => exact he s
  | generate s delay => exact generate_keeps he s delay
  | deleteGenerated s => exact (deleteGenerated_secluded s).keeps
  | setKind s kind => exact fun w => rfl
  | setComponents s cs => exact fun w => rfl
  | newSource seed => exact fun w => rfl
  | reseed i seed => exact reseed_keeps i seed
  | randomInt s low high => exact randomInt_keeps s low high
  | randomFraction s => exact randomFraction_keeps s
  | schedule s delay => exact (schedule_secluded s delay).keeps
  | cancel n => exact fun w => rfl
  | advance dt => exact advance_keeps he spare dt
  | clearAgenda => exact fun w => rfl
  | setLive live => exact fun w => rfl
  | listen listeners => exact fun w => rfl
  | warn x => exact fun w => rfl
  | setDesk desk => exact absurd trivial ho
  | setUser user => exact fun w => rfl

/-- **Programs.** What performs only such operations leaves the desk alone. -/
theorem Prog.Deskless.exec (spare : Nat) {expand : ShapeId → Act α κ σ Unit} (he : ∀ s, (expand s).Keeps k)
    {p : Prog α κ σ β} (hp : p.Deskless) : (p.exec spare expand).Keeps k := by
  induction p with
  | done b => exact fun w => rfl
  | fail e => exact fun w => rfl
  | look f next ih => exact fun w => ih (f w) (hp (f w)) w
  | perform o next ih =>
    intro w
    have ho := World.perform_keeps spare he hp.1
    unfold Act.after Prog.exec
    cases hr : World.perform spare expand o w with
    | error e v => exact ho.error hr
    | ok x v => exact (ih x (hp.2 x) v).trans (ho.ok hr)
  | attempt body next ihb ihn =>
    intro w
    have hbody := ihb hp.1
    unfold Act.after Prog.exec
    cases hr : body.exec spare expand w with
    | error e v => exact (ihn _ (hp.2 _) v).trans (hbody.error hr)
    | ok x v => exact (ihn _ (hp.2 _) v).trans (hbody.ok hr)

/-- **Rules.** However deep they run inside one another, rules leave alone what each does if those that it runs do. -/
theorem expandWithin_keeps {g : Grammar α κ σ} (hg : ∀ kind s (expand : ShapeId → Act α κ σ Unit),
    (∀ t, (expand t).Keeps k) → ((g.rule kind s).exec g.spare expand).Keeps k) (depth : Nat) (s : ShapeId) :
    (g.expandWithin depth s).Keeps k := by
  induction depth generalizing s with
  | zero => exact fun w => rfl
  | succ depth ih =>
    intro w
    unfold Act.after Grammar.expandWithin
    cases w.shape? s with
    | none => rfl
    | some x => exact hg x.kind s _ ih w

/-- rules that never put another desk there leave the desk alone -/
theorem expandWithin_keepsDesk {g : Grammar α κ σ} (hg : ∀ kind s, (g.rule kind s).Deskless) (depth : Nat) (s : ShapeId) :
    (g.expandWithin depth s).KeepsDesk :=
  expandWithin_keeps (k := id) (fun kind t _ he => (hg kind t).exec g.spare he) depth s

end

/-- recipes have no use for the desk -/
theorem Recipe.toProg_deskless [SymbolKind κ] (self : ShapeId) (r : Recipe α κ β) :
    (r.toProg self : Prog α κ σ β).Deskless := by
  induction r with
  | done b => trivial
  | fail e => trivial
  | relief next ih =>
    rw [toProg, Prog.Deskless]
    intro x
    cases x with
    | ok m => exact ih m
    | error e => trivial
  | integer low high next ih => exact ⟨False.elim, ih⟩
  | fraction next ih => exact ⟨False.elim, ih⟩
  | symbol offer name pose next ih => exact ⟨False.elim, fun _ => ih⟩
  | terminal template pose next ih => exact ⟨False.elim, fun _ => ih⟩
  | attempt body next ihb ihn => exact ⟨ihb, ihn⟩

end SceneGrammar
