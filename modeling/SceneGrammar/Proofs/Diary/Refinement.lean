/-
An agenda does what a diary does.

`agenda_refines_diary`: whatever is run from a world whose agenda keeps the books of a diary comes to what it comes to on
the planner with that diary. What there is to see is the same: the scene and its journal, in which the rules run stand
in order, the answers and faults, the clock, and what is pending.

An advance may end with the fault of a rule. `Interrupted` is where it then stands: it has removed the first booking due,
again and again, the last one that of the failed rule, and has done nothing else to the diary. A booking that no rule
has touched is there afterwards just if it was there before and is not among those removed (`Interrupted.lookup`), and
an advance by nothing goes on with what is left.
-/
import SceneGrammar.City
import SceneGrammar.Proofs.Diary.Simulation
import SceneGrammar.Proofs.Exact

namespace SceneGrammar

variable {α κ σ β : Type}

namespace Diary

theorem lookup_cancel (d : Diary α) (m n : Nat) :
    (d.cancel m).bookings.lookup n = if n = m then none else d.bookings.lookup n := by
  split_ifs with h
  · subst h
    exact AList.lookup_erase _ _
  · exact AList.lookup_erase_ne h

end Diary

namespace Planner

/-! ## Where an advance stands -/

/-- a booking that an advance has removed -/
structure Removal (α : Type) where
  entry : Σ _ : Nat, Booking α
  /-- the diary without it -/
  before : Diary α
  /-- the diary that its rule leaves; if none was run, the same -/
  after : Diary α

/-- what is run after a removal leaves the booking of a node as it was -/
def Removal.Keeps (r : Removal α) (n : Nat) : Prop := r.after.bookings.lookup n = r.before.bookings.lookup n

section

variable [Scalar α] {expand : ShapeId → Plan α κ σ Unit} {p p' q : Planner α κ σ} {e : Σ _ : Nat, Booking α}
  {rs : List (Removal α)} {fault : Fault α}

/-- an advance that no rule has ended yet: the first booking due has been removed, again and again, and its rule has been
run if the shape was alive -/
inductive Removes (expand : ShapeId → Plan α κ σ Unit) : Planner α κ σ → List (Removal α) → Planner α κ σ → Prop
  | nothing (p : Planner α κ σ) : Removes expand p [] p
  | dropped {p q : Planner α κ σ} {e : Σ _ : Nat, Booking α} {rs : List (Removal α)}
      (hdue : p.diary.firstDue? = some e) (hdead : ¬ p.world.shapeAlive e.2.shape = true)
      (hrest : Removes expand { p with diary := p.diary.cancel e.1 } rs q) :
      Removes expand p (⟨e, p.diary.cancel e.1, p.diary.cancel e.1⟩ :: rs) q
  | ran {p p' q : Planner α κ σ} {e : Σ _ : Nat, Booking α} {rs : List (Removal α)}
      (hdue : p.diary.firstDue? = some e) (halive : p.world.shapeAlive e.2.shape = true)
      (hrun : .ok () p' ∈ runExpansion expand e.2.shape { p with diary := p.diary.cancel e.1 })
      (hrest : Removes expand p' rs q) : Removes expand p (⟨e, p.diary.cancel e.1, p'.diary⟩ :: rs) q

/-- an advance that a rule has ended: its booking is the last one removed -/
inductive Interrupted (expand : ShapeId → Plan α κ σ Unit) (p : Planner α κ σ) :
    List (Removal α) → Fault α → Planner α κ σ → Prop
  | raised {p' q : Planner α κ σ} {e : Σ _ : Nat, Booking α} {rs : List (Removal α)} {fault : Fault α}
      (hbefore : Removes expand p rs p') (hdue : p'.diary.firstDue? = some e)
      (halive : p'.world.shapeAlive e.2.shape = true)
      (hrun : .error fault q ∈ runExpansion expand e.2.shape { p' with diary := p'.diary.cancel e.1 }) :
      Interrupted expand p (rs ++ [⟨e, p'.diary.cancel e.1, q.diary⟩]) fault q

/-- one removal more before an interruption -/
theorem Interrupted.dropped (hdue : p.diary.firstDue? = some e) (hdead : ¬ p.world.shapeAlive e.2.shape = true)
    (h : Interrupted expand { p with diary := p.diary.cancel e.1 } rs fault q) :
    Interrupted expand p (⟨e, p.diary.cancel e.1, p.diary.cancel e.1⟩ :: rs) fault q := by
  cases h with
  | raised hbefore hnext halive hrun => exact .raised (.dropped hdue hdead hbefore) hnext halive hrun

theorem Interrupted.ran (hdue : p.diary.firstDue? = some e) (halive : p.world.shapeAlive e.2.shape = true)
    (hrun : .ok () p' ∈ runExpansion expand e.2.shape { p with diary := p.diary.cancel e.1 })
    (h : Interrupted expand p' rs fault q) :
    Interrupted expand p (⟨e, p.diary.cancel e.1, p'.diary⟩ :: rs) fault q := by
  cases h with
  | raised hbefore hnext hlive hraised => exact .raised (.ran hdue halive hrun hbefore) hnext hlive hraised

/-- a fault of an advance under way is the fault of a rule -/
theorem interrupted_of_drain {done : List ShapeId} (h : .error fault q ∈ drain expand done p) :
    ∃ rs, Interrupted expand p rs fault q := by
  -- over what the planner removes
  refine PFun.fixInduction (C := fun x => ∃ rs, Interrupted expand x.2 rs fault q) h ?_
  rintro ⟨done, p⟩ h ih
  replace h : .error fault q ∈ drain expand done p := h
  cases hdue : p.diary.firstDue? with
  | none =>
    rw [drain_none hdue] at h
    cases Part.mem_some_iff.1 h
  | some e =>
    by_cases halive : p.world.shapeAlive e.2.shape = true
    · rw [drain_run hdue halive] at h
      obtain ⟨r, hr, hnext⟩ := Part.mem_bind_iff.1 h
      cases r with
      | ok u p' =>
        obtain ⟨rs, hrs⟩ := ih _ ((mem_removeFirst_run hdue halive).2 ⟨_, hr, Or.inl ⟨_, rfl, rfl⟩⟩)
        exact ⟨_, hrs.ran hdue halive hr⟩
      | error e' p' =>
        cases Part.mem_some_iff.1 hnext
        exact ⟨_, .raised (.nothing p) hdue halive hr⟩
    · obtain ⟨rs, hrs⟩ := ih _ (mem_removeFirst_dropped hdue halive)
      exact ⟨_, hrs.dropped hdue halive⟩

/-- what has been removed if the first rule fails -/
theorem Interrupted.of_fails {w : World α κ σ} {d : Diary α} {fault' : Fault α} (hdue : d.firstDue? = some e)
    (halive : w.shapeAlive e.2.shape = true)
    (hrun : runExpansion expand e.2.shape ⟨w, d.cancel e.1⟩ = .some (.error fault' p'))
    (h : Interrupted expand ⟨w, d⟩ rs fault q) : rs = [⟨e, d.cancel e.1, p'.diary⟩] := by
  cases h with
  | raised hbefore hnext hlive hraised =>
    cases hbefore with
    | nothing =>
      cases hdue.symm.trans hnext
      rw [hrun] at hraised
      cases Part.mem_some_iff.1 hraised
      rfl
    | dropped hdue' hdead =>
      cases hdue.symm.trans hdue'
      exact absurd halive hdead
    | ran hdue' _ hrun' =>
      cases hdue.symm.trans hdue'
      rw [hrun] at hrun'
      cases Part.mem_some_iff.1 hrun'

omit [Scalar α] in
/-- one removal, and what comes of the booking of a node that it leaves as it was -/
theorem Removal.lookup {d : Diary α} {r : Removal α} {n : Nat} (hbefore : r.before = d.cancel r.entry.1)
    (hn : r.Keeps n) {nodes : List Nat} :
    (if n ∈ nodes then none else r.after.bookings.lookup n) =
      if n ∈ r.entry.1 :: nodes then none else d.bookings.lookup n := by
  rw [Removal.Keeps, hbefore, Diary.lookup_cancel] at hn
  rw [hn]
  by_cases hmem : n ∈ nodes
  · rw [if_pos hmem, if_pos (List.mem_cons_of_mem _ hmem)]
  · simp [hmem]

/-- what no rule has touched is booked afterwards as before, unless it has been removed -/
theorem Removes.lookup (h : Removes expand p rs q) {n : Nat} (hn : ∀ r ∈ rs, r.Keeps n) :
    q.diary.bookings.lookup n = if n ∈ rs.map (·.entry.1) then none else p.diary.bookings.lookup n := by
  induction h with
  | nothing p => simp
  | dropped hdue hdead hrest ih =>
    obtain ⟨hkeeps, hrest⟩ := List.forall_mem_cons.1 hn
    rw [ih hrest]
    exact Removal.lookup rfl hkeeps
  | ran hdue halive hrun hrest ih =>
    obtain ⟨hkeeps, hrest⟩ := List.forall_mem_cons.1 hn
    rw [ih hrest]
    exact Removal.lookup rfl hkeeps

/-- **What is left.** Of the bookings that no rule has touched, those removed are gone, the one of the failed rule among
them, and all the others are as they were. -/
theorem Interrupted.lookup (h : Interrupted expand p rs fault q) {n : Nat} (hn : ∀ r ∈ rs, r.Keeps n) :
    q.diary.bookings.lookup n = if n ∈ rs.map (·.entry.1) then none else p.diary.bookings.lookup n := by
  cases h with
  | @raised p' _ e rs _ hbefore hdue halive hrun =>
    have hlast := hn _ (List.mem_append_right _ List.mem_cons_self)
    have hrest := hbefore.lookup fun r hr => hn r (List.mem_append_left _ hr)
    rw [Removal.Keeps, Diary.lookup_cancel, hrest] at hlast
    rw [hlast]
    simp only [List.map_append, List.map_cons, List.map_nil, List.mem_append, List.mem_singleton]
    by_cases hmem : n ∈ rs.map (·.entry.1)
    · simp [hmem]
    · simp [hmem]

/-- an advance by nothing goes on with what is booked -/
theorem advance_standing {dt : α} (hdt : ¬ dt < Scalar.zero) (hnow : p.diary.now + dt = p.diary.now) :
    advance expand dt p = drain expand [] p := by
  have htick : p.diary.tick dt = p.diary := by rw [Diary.tick, hnow]
  rw [advance, if_neg hdt, htick]

end

end Planner

open Planner

variable [Scalar α] [OrderedScalar α] [SymbolKind κ]

/-- **An agenda does what a diary does.** A new agenda keeps the books of the empty diary, and a world that mirrors a
planner shows what the planner shows. From an agenda that keeps the books of a diary:

* every program, whatever its rules do, approaches what it comes to with the diary, and leaves an agenda that keeps the
  books of the diary left;
* if a rule fails in an advance, at whatever depth, the advance has removed the first booking due, again and again, up
  to that of the rule, the bookings that no rule has touched are those of before without those removed, and an advance
  by nothing goes on with the bookings left. -/
theorem agenda_refines_diary {g : Grammar α κ σ} (hg : ∀ kind s, (g.rule kind s).Discreet) :
    (Agenda.empty : Agenda α).Books .empty ∧
    (∀ (w : World α κ σ) (p : Planner α κ σ), Mirrors w p → p.world = w.rebook p.world.agenda ∧
      w.agenda.now = p.diary.now ∧ w.agenda.pendingCount = p.diary.pendingCount ∧
      ∀ n, w.agenda.isPending n = p.diary.isPending n) ∧
    ∀ (w : World α κ σ) (d : Diary α), w.agenda.Books d →
      (∀ (β : Type) (p : Prog α κ σ β), p.Discreet →
        Approaches (fun k => p.run { g with spare := k } w) (p.runPlanned g ⟨w, d⟩)) ∧
      ∀ (depth k : Nat) (dt : α) (fault : Fault α) (v : World α κ σ), ¬ dt < Scalar.zero → fault ≠ .tooLong →
        World.advance ({ g with spare := k }.expandWithin depth) k dt w = .error fault v →
        ∃ rs q, Interrupted (g.planWithin depth) ⟨w, d.tick dt⟩ rs fault q ∧ Mirrors v q ∧
          (∀ n, (∀ r ∈ rs, r.Keeps n) →
            q.diary.bookings.lookup n = if n ∈ rs.map (·.entry.1) then none else d.bookings.lookup n) ∧
          ∀ step, ¬ step < Scalar.zero → v.agenda.now + step = v.agenda.now →
            Approaches (fun k => World.advance ({ g with spare := k }.expandWithin depth) k step v)
              (drain (g.planWithin depth) [] q) := by
  have he := planWithin_approaches hg
  refine ⟨Agenda.books_empty, fun w p h => ⟨h.scene, h.books.now, h.books.pendingCount, h.books.isPending⟩, ?_⟩
  intro w d hb
  have hm : Mirrors w ⟨w, d⟩ := ⟨rfl, hb⟩
  refine ⟨fun β p hp => hp.approaches (he g.nesting) hm, ?_⟩
  intro depth k dt fault v hdt hfault hv
  obtain ⟨q, hq, hmv⟩ := (advance_approaches (he depth) dt hm).of_error hv hfault
  rw [advance, if_neg hdt] at hq
  obtain ⟨rs, hrs⟩ := interrupted_of_drain hq
  refine ⟨rs, q, hrs, hmv, fun n hn => hrs.lookup hn, fun step hstep hnow => ?_⟩
  rw [hmv.books.now] at hnow
  rw [← advance_standing hstep hnow]
  exact advance_approaches (he depth) step hmv

/-! ## A case -/

/-- a grammar in which a roof cannot be expanded, and the expansion of a block plans the next one -/
def errands : Grammar ℚ (City.Kind ℚ) Unit where
  rule
    | .roof, _ => .fail .noChoice
    | .block _, s => .perform (.schedule s 5) fun _ => .done ()
    | _, _ => .done ()
  nesting := 3
  spare := 0

theorem errands_discreet (kind : City.Kind ℚ) (s : ShapeId) : (errands.rule kind s).Discreet := by
  cases kind with
  | block floors => exact fun _ => trivial
  | _ => exact trivial

/-- a roof, a block and a building are to be expanded at the same time; the building had been put off at first -/
def threeBooked : Prog ℚ (City.Kind ℚ) Unit Unit :=
  .perform (.createRoot (.of (.block 1)) "block" none (.displaced .origin) none) fun block =>
    .perform (.createRoot (.of .roof) "roof" none (.displaced .origin) none) fun roof =>
      .perform (.createRoot (.of (.building 1)) "building" none (.displaced .origin) none) fun building =>
        .perform (.schedule building 3) fun _ => .perform (.schedule roof 1) fun _ =>
          .perform (.schedule block 1) fun _ => .perform (.schedule building 1) fun _ => .done ()

/-- advance to that time and then, whatever has come of it, by nothing; in between, is the roof pending still? -/
def advanceTwice : Prog ℚ (City.Kind ℚ) Unit (Bool × List ShapeId) :=
  .endure (.perform (.advance 1) .done) fun _ =>
    .perform (.cancel 2) fun roof => .perform (.advance 0) fun expanded => .done (roof, expanded)

/-- the world in which they are booked -/
def booked : World ℚ (City.Kind ℚ) Unit := (threeBooked.run errands).after (.fresh ⟨fun _ => 0, 0⟩ ())

/-- the world after an advance to that time, which the roof has ended -/
def interrupted : World ℚ (City.Kind ℚ) Unit :=
  (World.advance ({ errands with spare := 3 }.expandWithin 3) 3 1).after booked

/-- the answer of a run, the clock after it and the number of bookings -/
def answered {β : Type} (r : EStateM.Result (Fault ℚ) (World ℚ (City.Kind ℚ) Unit) β) : Option (β × ℚ × Nat) :=
  match r with
  | .ok b w => some (b, w.agenda.now, w.agenda.pendingCount)
  | .error _ _ => none

theorem exists_of_answered {β : Type} {r : EStateM.Result (Fault ℚ) (World ℚ (City.Kind ℚ) Unit) β} {b : β} {t : ℚ}
    {n : Nat} (h : answered r = some (b, t, n)) : ∃ w, r = .ok b w ∧ w.agenda.now = t ∧ w.agenda.pendingCount = n := by
  cases r with
  | ok b w =>
    cases h
    exact ⟨w, rfl, rfl, rfl⟩
  | error e w => cases h

/-- whether there was nothing to choose from -/
def choiceless {β : Type} (r : EStateM.Result (Fault ℚ) (World ℚ (City.Kind ℚ) Unit) β) : Bool :=
  match r with
  | .error .noChoice _ => true
  | _ => false

theorem error_of_choiceless {β : Type} {a : Act ℚ (City.Kind ℚ) Unit β} {w : World ℚ (City.Kind ℚ) Unit}
    (h : choiceless (a w) = true) : a w = .error .noChoice (a.after w) := by
  unfold Act.after
  cases hr : a w with
  | ok b w =>
    rw [hr] at h
    cases h
  | error e w =>
    rw [hr] at h
    cases e with
    | noChoice => rfl
    | _ => cases h

/-- three bookings are kept -/
theorem booked_books : ∃ d, booked.agenda.Books d := by
  have hthree : threeBooked.Discreet := fun _ _ _ _ _ _ _ => trivial
  have hempty : Mirrors (.fresh ⟨fun _ => 0, 0⟩ ()) (⟨.fresh ⟨fun _ => 0, 0⟩ (), .empty⟩ : Planner ℚ (City.Kind ℚ) Unit) :=
    ⟨rfl, Agenda.books_empty⟩
  have hruns := hthree.approaches (planWithin_approaches errands_discreet errands.nesting) hempty
  obtain ⟨u, hu, -⟩ := exists_of_answered (show answered (threeBooked.run errands (.fresh ⟨fun _ => 0, 0⟩ ())) =
    some ((), 0, 3) by decide +kernel)
  obtain ⟨p, -, hm⟩ := hruns.of_ok (k := 0) hu
  have hw : booked = u := by rw [booked, Act.after, hu]
  exact ⟨p.diary, hw ▸ hm.books⟩

/-- the first booking due is that of the roof, and its rule fails at once -/
theorem booked_first {d : Diary ℚ} (hb : booked.agenda.Books d) :
    ∃ b, (d.tick 1).firstDue? = some ⟨2, b⟩ ∧ booked.shapeAlive b.shape = true ∧
      ∃ u, runExpansion (errands.planWithin 3) b.shape ⟨booked, (d.tick 1).cancel 2⟩ =
        .some (.error .noChoice ⟨u, (d.tick 1).cancel 2⟩) := by
  have hpop : ((booked.agenda.tick 1).popDue.map fun y => (y.1.node, y.1.shape, y.1.cancelled)) = some (2, 1, false) := by
    decide +kernel
  obtain ⟨⟨x, a⟩, hxa, hx⟩ := Option.map_eq_some_iff.1 hpop
  obtain ⟨hnode, hshape, hlive⟩ : x.node = 2 ∧ x.shape = 1 ∧ x.cancelled = false := by simpa using hx
  have hkind : ((booked.markExpanded 1).shape? 1).map (·.kind.typeName) = some "Roof" := by decide +kernel
  obtain ⟨y, hy, hname⟩ := Option.map_eq_some_iff.1 hkind
  have hroof : y.kind = .roof := by
    cases hk : y.kind with
    | roof => rfl
    | _ =>
      rw [hk] at hname
      simp [City.Kind.typeName] at hname
  refine ⟨x.booking, hnode ▸ ((hb.tick 1).pop_booked hxa hlive).1, ?_, booked.markExpanded 1, ?_⟩
  · show booked.shapeAlive x.shape = true
    rw [hshape]
    decide +kernel
  · show runExpansion (errands.planWithin 3) x.shape _ = _
    rw [hshape]
    simp only [runExpansion, Grammar.planWithin, hy, hroof]
    exact Part.bind_some _ _

/-- the roof ends the advance, and its booking alone is gone; an advance by nothing expands the block and the building,
and of the three bookings only the new one of the block is left -/
theorem agenda_refines_diary_errands : ∃ d, booked.agenda.Books d ∧
    (∃ rs q, Interrupted (errands.planWithin 3) ⟨booked, d.tick 1⟩ rs .noChoice q ∧ Mirrors interrupted q ∧
      (∀ n, q.diary.bookings.lookup n = if n = 2 then none else d.bookings.lookup n) ∧
      ∃ q', .ok [0, 2] q' ∈ drain (errands.planWithin 3) [] q ∧ q'.diary.now = 1 ∧ q'.diary.pendingCount = 1) ∧
    ∃ q, .ok (false, [0, 2]) q ∈ advanceTwice.runPlanned errands ⟨booked, d⟩ ∧ q.diary.now = 1 ∧
      q.diary.pendingCount = 1 := by
  obtain ⟨d, hb⟩ := booked_books
  obtain ⟨hruns, hfails⟩ := (agenda_refines_diary errands_discreet).2.2 booked d hb
  refine ⟨d, hb, ?_, ?_⟩
  · have hv : World.advance ({ errands with spare := 3 }.expandWithin 3) 3 1 booked = .error .noChoice interrupted :=
      error_of_choiceless (by decide +kernel)
    obtain ⟨rs, q, hrs, hm, hlookup, hresume⟩ := hfails 3 3 1 .noChoice interrupted (by decide) nofun hv
    obtain ⟨b, hdue, halive, u, hrun⟩ := booked_first hb
    have hone : rs = [⟨⟨2, b⟩, (d.tick 1).cancel 2, (d.tick 1).cancel 2⟩] := hrs.of_fails (e := ⟨2, b⟩) hdue halive hrun
    obtain ⟨v, hv, hnow, hcount⟩ := exists_of_answered
      (show answered (World.advance ({ errands with spare := 3 }.expandWithin 3) 3 0 interrupted) =
        some ([0, 2], 1, 1) by decide +kernel)
    obtain ⟨q', hq', hm'⟩ := (hresume 0 (by decide) (by decide +kernel)).of_ok (k := 3) hv
    refine ⟨rs, q, hrs, hm, fun n => ?_, q', hq', hm'.books.now.symm.trans hnow, hm'.books.pendingCount.symm.trans hcount⟩
    have hn := hlookup n (by simp [hone, Removal.Keeps])
    simpa [hone] using hn
  · obtain ⟨v, hv, hnow, hcount⟩ := exists_of_answered
      (show answered (advanceTwice.run { errands with spare := 3 } booked) = some ((false, [0, 2]), 1, 1) by decide +kernel)
    have htwice : advanceTwice.Discreet := Prog.discreet_endure (fun _ => trivial) fun _ _ _ => trivial
    obtain ⟨q, hq, hm⟩ := (hruns _ advanceTwice htwice).of_ok (k := 3) hv
    exact ⟨q, hq, hm.books.now.symm.trans hnow, hm.books.pendingCount.symm.trans hcount⟩

end SceneGrammar
