/-
What a creation that fails leaves behind.

All checks stand before the first change: a kind that cannot be made, parameters that do not fit, a template that is not
known and a parent that is dead (`Barred`) leave the world exactly as it was, in any world at all. The only way to fail
after a change is that the rule of a new symbol fails (`perform_creation_error`). Then the symbol is there, as `Seated`
says: on a living node, registered, under the start symbol of its creator, and last on its creator's list.

- `Moves.list_grows`: where nothing has died, a list with something alive on it has grown by what was recorded.
- `Reached.creation_fails`: both cases, of any world reached with known names.
-/
import SceneGrammar.Proofs.Registration
import SceneGrammar.Proofs.Regeneration

namespace SceneGrammar

variable {α κ σ : Type}

/-- the operations that make nodes -/
def Op.creates : Op α κ σ → Bool
  | .createNode .. | .instantiate .. | .createRoot .. | .createSymbol .. | .spawn .. => true
  | _ => false

/-- an act ends with an answer or with a fault -/
theorem Act.ends {β : Type} (a : Act α κ σ β) (w : World α κ σ) :
    (∃ b, a w = .ok b (a.after w)) ∨ ∃ e, a w = .error e (a.after w) := by
  unfold after
  cases a w with
  | ok b v => exact .inl ⟨b, rfl⟩
  | error e v => exact .inr ⟨e, rfl⟩

/-- an act that fails without a change or else answers has changed nothing when it has failed -/
theorem Act.unchanged {β : Type} {a : Act α κ σ β} {w v : World α κ σ} {e : Fault α} {P : Prop}
    (h : (∃ e, a w = .error e w) ∨ P) (answers : P → ∃ b u, a w = .ok b u) (hrun : a w = .error e v) : v = w := by
  rcases h with ⟨e', he⟩ | h
  · cases hrun.symm.trans he
    rfl
  · obtain ⟨b, u, hok⟩ := answers h
    cases hrun.symm.trans hok

namespace World

variable {w v u : World α κ σ} {s : ShapeId} {n : NodeId} {es : List Entry} {parent : Option NodeId} {name : String}

/-! ## What bars a creation -/

/-- a parent that has been destroyed -/
def Gone (w : World α κ σ) (parent : Option NodeId) : Prop :=
  ∃ p x, parent = some p ∧ w.node? p = some x ∧ x.alive = false

/-- where something that a shape makes is hung: under the node that is named, or under the shape's own -/
def above (w : World α κ σ) (creator : ShapeId) (parent : Option NodeId) : Option NodeId :=
  parent <|> w.homeOf creator

/-- the kind cannot be made or its parameters do not fit, the template is not known, or the parent is dead -/
def Barred (w : World α κ σ) : Op α κ σ → Prop
  | .createNode _ parent _ => w.Gone parent
  | .instantiate _ parent _ => w.Gone parent
  | .createRoot offer _ parent _ _ => offer.kind? = none ∨ w.Gone parent
  | .createSymbol creator offer _ parent _ => offer.kind? = none ∨ w.Gone (w.above creator parent)
  | .spawn creator template parent _ =>
    (∃ id, template = .byId id ∧ w.templates.find? id = none) ∨ w.Gone (w.above creator parent)
  | _ => False

theorem parentFault?_of_gone (h : w.Gone parent) (name : String) : ∃ e, w.parentFault? name parent = some e := by
  obtain ⟨p, x, rfl, hx, hdead⟩ := h
  exact ⟨.deadParent name x.id x.name, by simp [parentFault?, hx, hdead]⟩

theorem above_of_home {creator : ShapeId} {own : NodeId} (ho : w.homeOf creator = some own) (parent : Option NodeId) :
    w.above creator parent = some (parent.getD own) := by
  cases parent with
  | none => exact ho
  | some p => rfl

section

variable [SymbolKind κ]

theorem placeSymbol_barred {creator : ShapeId} {offer : KindOffer κ}
    (h : offer.kind? = none ∨ w.Gone (w.above creator parent)) (name : String) (pose : Pose α) :
    ∃ e, placeSymbol creator offer name parent pose w = .error e w := by
  rcases placeSymbol_cases creator offer name parent pose w with he | ⟨own, key, kind, ho, -, rfl, hp, -⟩
  · exact he
  rcases h with h | h
  · cases h
  · obtain ⟨e, he⟩ := parentFault?_of_gone (above_of_home ho parent ▸ h) name
    rw [hp] at he
    cases he

/-- when a symbol has been placed, its rule is all that can fail -/
theorem createSymbol_error {expand : ShapeId → Act α κ σ Unit} {creator : ShapeId} {offer : KindOffer κ} {pose : Pose α}
    {e : Fault α} (hplace : placeSymbol creator offer name parent pose w = .ok s u)
    (hrun : createSymbol expand creator offer name parent pose w = .error e v) : runExpansion expand s u = .error e v := by
  unfold createSymbol at hrun
  rw [hplace] at hrun
  dsimp only at hrun
  split_ifs at hrun
  cases hx : runExpansion expand s u <;> rw [hx] at hrun <;> cases hrun
  rfl

variable [Scalar α] {spare : Nat} {expand : ShapeId → Act α κ σ Unit} {o : Op α κ σ} {e : Fault α}

/-- **Barred.** What is barred fails before anything changes. -/
theorem perform_barred (h : w.Barred o) (spare : Nat) (expand : ShapeId → Act α κ σ Unit) :
    ∃ e, perform spare expand o w = .error e w := by
  cases o with
  | createNode name parent pose =>
    obtain ⟨e, he⟩ := parentFault?_of_gone h name
    exact ⟨e, by simp only [perform, createNode, he]⟩
  | instantiate t parent pose =>
    obtain ⟨e, he⟩ := parentFault?_of_gone h t.displayName
    exact ⟨e, by simp only [perform, instantiate, he]⟩
  | createRoot offer name parent pose source =>
    rcases createRoot_cases offer name parent pose source w with hfails | ⟨kind, rfl, hp, -⟩
    · exact hfails
    · obtain ⟨e, he⟩ := parentFault?_of_gone (h.resolve_left (by simp [KindOffer.kind?])) name
      cases hp.symm.trans he
  | createSymbol creator offer name parent pose =>
    obtain ⟨e, he⟩ := placeSymbol_barred h name pose
    exact ⟨e, by simp only [perform, createSymbol, he]⟩
  | spawn creator template parent pose =>
    rcases spawn_cases creator template parent pose w with hfails | ⟨own, t, ho, ht, hp, -⟩
    · exact hfails
    · have hgone : w.Gone (w.above creator parent) := by
        refine h.resolve_left ?_
        rintro ⟨id, rfl, hid⟩
        simp [resolve, hid] at ht
      rw [above_of_home ho] at hgone
      obtain ⟨e, he⟩ := parentFault?_of_gone hgone t.displayName
      cases hp.symm.trans he
  | _ => exact h.elim

/-- a creation that fails has changed nothing, unless it was the rule of a new symbol that failed -/
theorem perform_creation_error (ho : o.creates = true) (hrun : perform spare expand o w = .error e v) :
    v = w ∨ ∃ creator offer name parent pose s u, o = .createSymbol creator offer name parent pose ∧
      placeSymbol creator offer name parent pose w = .ok s u ∧ runExpansion expand s u = .error e v := by
  cases o with
  | createNode name parent pose =>
    exact .inl (Act.unchanged (createNode_cases name parent pose w) (fun h => ⟨_, _, h.2⟩) hrun)
  | instantiate t parent pose =>
    exact .inl (Act.unchanged (instantiate_cases t parent pose w) (fun h => ⟨_, _, h.2⟩) hrun)
  | createRoot offer name parent pose source =>
    exact .inl (Act.unchanged (createRoot_cases offer name parent pose source w)
      (by rintro ⟨_, _, _, h⟩; exact ⟨_, _, h⟩) hrun)
  | createSymbol creator offer name parent pose =>
    replace hrun : createSymbol expand creator offer name parent pose w = .error e v := hrun
    cases hplace : placeSymbol creator offer name parent pose w with
    | error e' v' =>
      rw [createSymbol, hplace] at hrun
      cases hrun
      exact .inl (Act.unchanged (placeSymbol_cases creator offer name parent pose w)
        (by rintro ⟨_, _, _, _, _, _, _, h⟩; exact ⟨_, _, h⟩) hplace)
    | ok s u =>
      exact .inr ⟨creator, offer, name, parent, pose, s, u, rfl, hplace, createSymbol_error hplace hrun⟩
  | spawn creator template parent pose =>
    exact .inl (Act.unchanged (spawn_cases creator template parent pose w)
      (by rintro ⟨_, _, _, _, _, h⟩; exact ⟨_, _, h⟩) hrun)
  | _ => cases ho

end

/-! ## The list of a creator while the rule of its symbol runs -/

/-- what was recorded since -/
def recordedSince (w v : World α κ σ) : List Entry := v.journal.toList.drop w.journal.size

theorem Onward.recordedSince (h : Onward w v es) : recordedSince w v = es := by
  rw [World.recordedSince, h.journal, ← Array.length_toList, List.drop_left]

variable [Scalar α] [SymbolKind κ]

omit [Scalar α] [SymbolKind κ] in
/-- a shape whose list is asked to be emptied is that of a deletion -/
theorem eq_deleteGenerated_of_emptied? {o : Op α κ σ} {t : List ShapeId} (hf : o.emptied? = some t) (hs : s ∈ t) :
    o = .deleteGenerated s := by
  cases o with
  | destroy | clearScene | clear =>
    obtain rfl : [] = t := Option.some.inj hf
    exact absurd hs List.not_mem_nil
  | deleteGenerated r =>
    obtain rfl : [r] = t := Option.some.inj hf
    rw [List.mem_singleton.1 hs]
  | _ => cases hf

/-- where nothing has died, a list with something alive on it has grown by what was recorded -/
theorem Moves.list_grows {ok : World α κ σ → Op α κ σ → Bool} (hok : AsksNames ok) (m : Moves ok w v) (h : Housed w)
    (hn : w.homeOf s = some n) (hg : ∃ g ∈ w.generatedBy s, w.isAlive g = true) :
    ∃ es, Onward w v es ∧ (∀ t k, w.homeOf t = some k → v.homeOf t = some k) ∧
      ((∀ m, w.isAlive m = true → v.isAlive m = true) → v.generatedBy s = w.generatedBy s ++ trackedIn s es) := by
  induction m with
  | refl => exact ⟨[], .refl w, fun _ _ => id, fun _ => (List.append_nil _).symm⟩
  | @tail v u hm hmove ih =>
    obtain ⟨es, honward, hhomes, hlist⟩ := ih
    have hv : Housed v := Moves.housed hm hok h
    rcases hmove.turns hok hv with ⟨fs, b⟩ | ⟨o, t, hf, -, rfl⟩
    · refine ⟨es ++ fs, honward.trans b.toOnward, fun t k hk => b.homes t k (hhomes t k hk), fun hkept => ?_⟩
      have hkeptv (m : NodeId) (hl : w.isAlive m = true) : v.isAlive m = true :=
        b.gone m ((le_size_of_isAlive hl).trans honward.size) (hkept m hl)
      rw [b.list, hlist hkeptv, trackedIn_append, List.append_assoc]
    · have e : Ends v ((does o).after v) t := performs_ends hf
      obtain ⟨dead, hdead⟩ := e.onward
      refine ⟨es ++ dead.map .announced, honward.trans hdead, fun t k hk => (e.homeOf t).trans (hhomes t k hk),
        fun hkept => ?_⟩
      have hkeptv (m : NodeId) (hl : w.isAlive m = true) : v.isAlive m = true := e.alive m (hkept m hl)
      rw [trackedIn_append, trackedIn_announced, List.append_nil, ← hlist hkeptv]
      rcases e.generatedBy s with hs | ⟨-, ht | ⟨m, hm', hl, hd⟩⟩
      · exact hs
      · -- its own deletion would have left nothing alive of what was on the list
        obtain rfl := eq_deleteGenerated_of_emptied? hf ht
        obtain ⟨g, hmem, hl⟩ := hg
        have hafter : (does (.deleteGenerated s)).after v = cleanWithin v.teardownBound s v :=
          Act.after_ok (deleteGenerated_eq (hhomes s n hn))
        refine absurd (hkept g hl) (hafter ▸ (clean_spends v s).1 g ?_)
        rw [hlist hkeptv]
        exact List.mem_append_left _ hmem
      · obtain rfl : n = m := Option.some.inj ((hhomes s n hn).symm.trans ((hv.home_iff s m).2 hm'))
        exact absurd (hkept n (honward.gone n (le_size_of_shapeOn? ((h.home_iff s n).1 hn)) hl)) hd

/-! ## A symbol whose rule has failed -/

omit [Scalar α] in
/-- a symbol made since `w` under the next id: alive, registered, of its creator's start symbol, last on its creator's
list -/
structure Seated (w v : World α κ σ) (creator child : ShapeId) : Prop where
  alive : v.isAlive w.nextId = true
  home : v.homeOf child = some w.nextId ∧ v.shapeOn? w.nextId = some child
  registered : v.registered? w.nextId = some child
  root : v.rootKeyOf child = w.rootKeyOf creator ∧ v.rootKeyOf creator = w.rootKeyOf creator
  list : v.generatedBy creator = w.generatedBy creator ++ [w.nextId]

omit [Scalar α] in
/-- a symbol that has just been placed -/
theorem seated_placeSymbol (h : Housed w) {creator : ShapeId} {offer : KindOffer κ} {pose : Pose α}
    (hk : w.knows parent = true) (hplace : placeSymbol creator offer name parent pose w = .ok s u) :
    Seated w u creator s ∧ ∃ n, u.homeOf creator = some n := by
  rcases placeSymbol_cases creator offer name parent pose w with ⟨e, he⟩ | ⟨own, key, kind, ho, hkey, -, hp, he⟩
  · cases hplace.symm.trans he
  cases hplace.symm.trans he
  have hpar := mem_alive_of_parentFault? hp (knows_getD ((h.home_iff creator own).1 ho) hk)
  have a := adds_seat w kind name (some (parent.getD own)) pose (some key) hpar
  have hbrings := brings_seat kind name pose (some key) hpar
  have hcreator := lt_size_of_homeOf ho
  have hsize := size_seat w kind name (some (parent.getD own)) pose (some key)
  have hhome := homeOf_seat w kind name (some (parent.getD own)) pose (some key)
  have hroot := rootKeyAt_seat w kind name (some (parent.getD own)) pose (some key)
  have hlook : (w.seat kind name (some (parent.getD own)) pose (some key)).registered? w.nextId = some w.shapes.size := by
    rw [registered?_seat, if_pos rfl]
  generalize w.seat kind name (some (parent.getD own)) pose (some key) = v at *
  have e := sameScene_take v creator w.nextId 1
  have hnew : v.isAlive w.nextId = true := (a.isAlive _).2 (.inl rfl)
  have hlt : creator < v.shapes.size := hcreator.trans (hsize ▸ Nat.lt_succ_self _)
  have htake : Brings w (v.take creator w.nextId 1) _ := hbrings.take hlt (Nat.lt_succ_self _) hnew 1
  have hown : (v.take creator w.nextId 1).homeOf creator = some own := (e.home creator).trans (hbrings.homes _ _ ho)
  have hchild : (v.take creator w.nextId 1).homeOf w.shapes.size = some w.nextId := by rw [e.home, hhome, if_pos rfl]
  refine ⟨⟨(e.isAlive _).trans hnew, ⟨hchild, ?_⟩, ?_, ⟨?_, ?_⟩, ?_⟩, own, hown⟩
  · rw [e.shapeOn?, a.shapeOn?, if_pos rfl]
  · rw [registered?, e.bound]
    exact hlook
  · rw [rootKeyOf_eq hchild, e.rootKey, hroot, if_pos rfl, hkey]
    rfl
  · rw [rootKeyOf_eq hown, e.rootKey, hroot, if_neg hcreator.ne, rootKeyOf_eq ho]
  · rw [htake.list, trackedIn_made, trackedIn_single, if_pos rfl]
    rfl

/-- and it stays so, as long as nothing dies and its creator's list gains nothing -/
theorem Seated.moves {creator : ShapeId} (hs : Seated w u creator s) (h : Housed u) (hn : u.homeOf creator = some n)
    (m : Moves unswept u v) (hkept : ∀ m, u.isAlive m = true → v.isAlive m = true)
    (hgain : trackedIn creator (recordedSince u v) = []) : Seated w v creator s := by
  have hmem : w.nextId ∈ u.generatedBy creator := by
    rw [hs.list]
    exact List.mem_append_right _ (List.mem_singleton_self _)
  obtain ⟨es, honward, hhomes, hlist⟩ := m.list_grows asksNames_unswept h hn ⟨w.nextId, hmem, hs.alive⟩
  have hstays := m.stays h
  have hroot {t : ShapeId} {k : NodeId} (ht : u.homeOf t = some k) : v.rootKeyOf t = u.rootKeyOf t := by
    rw [rootKeyOf_eq (hhomes t k ht), hstays.rootKey t (lt_size_of_homeOf ht), rootKeyOf_eq ht]
  have halive := hkept w.nextId hs.alive
  refine ⟨halive, ⟨hhomes s _ hs.home.1, ?_⟩, ?_, ⟨?_, ?_⟩, ?_⟩
  · exact ((m.housed asksNames_unswept h).home_iff s _).1 (hhomes s _ hs.home.1)
  · exact (hstays.registered w.nextId (le_size_of_isAlive hs.alive) halive).trans hs.registered
  · exact (hroot hs.home.1).trans hs.root.1
  · exact (hroot hn).trans hs.root.2
  · rw [hlist hkept, ← honward.recordedSince, hgain, List.append_nil, hs.list]

end World

open World

/-- **Failed creations.** In any world reached with known names, a creation that is barred fails and changes nothing, and
so does every creation that fails but for one: a symbol may be placed whose rule then fails. If nothing has died since
the rule began and nothing came on the creator's list, the symbol stands where it was placed. -/
theorem World.Reached.creation_fails [Scalar α] [SymbolKind κ] {w : World α κ σ} (h : Reached World.names w)
    (g : Grammar α κ σ) (depth : Nat) :
    (∀ o, w.Barred o → ∃ e, perform g.spare (g.expandWithin depth) o w = .error e w) ∧
      (∀ o e v, o.creates = true → perform g.spare (g.expandWithin depth) o w = .error e v →
        v = w ∨ ∃ creator offer name parent pose s u, o = .createSymbol creator offer name parent pose ∧
          placeSymbol creator offer name parent pose w = .ok s u ∧
          runExpansion (g.expandWithin depth) s u = .error e v) ∧
      ∀ creator offer name parent pose s u e v, w.knows parent = true →
        placeSymbol creator offer name parent pose w = .ok s u →
        createSymbol (g.expandWithin depth) creator offer name parent pose w = .error e v →
        runExpansion ((g.guarded unswept).expandWithin depth) s u = runExpansion (g.expandWithin depth) s u →
        (∀ m, u.isAlive m = true → v.isAlive m = true) → trackedIn creator (recordedSince u v) = [] →
        Seated w v creator s := by
  refine ⟨fun o ho => perform_barred ho _ _, fun o e v ho hrun => perform_creation_error ho hrun, ?_⟩
  intro creator offer name parent pose s u e v hk hplace hrun hguard hkept hgain
  have hhoused := h.housed fun _ _ => id
  obtain ⟨hseated, n, hn⟩ := seated_placeSymbol hhoused hk hplace
  have hplaced : Housed u := by
    have hmove : Move World.names w ((placeSymbol creator offer name parent pose).after w) :=
      .place creator offer name parent pose hk
    exact Act.after_ok hplace ▸ hmove.housed (fun _ _ => id) hhoused
  have hmoves : Moves unswept u ((runExpansion ((g.guarded unswept).expandWithin depth) s).after u) :=
    runExpansion_moves
      (Grammar.expandWithin_endures (moves_endure splits_unswept u g.spare) depth s _ (.single (.begins s)))
  rw [Act.after_error (hguard.trans (createSymbol_error hplace hrun))] at hmoves
  exact hseated.moves hplaced hn hmoves hkept hgain

/-- a building beside a shed that has been torn down -/
def demolished : Prog ℚ (City.Kind ℚ) Unit Unit :=
  .perform (.createRoot (.of (.building 1)) "home" none (.displaced .origin) none) fun _ =>
    .perform (.createNode "shed" none (.displaced .origin)) fun shed => .perform (.destroy shed) fun _ => .done ()

/-- nothing can be made below the shed; a stack below the building stands, though its rule fails behind its roof -/
theorem creation_fails_demolished :
    let w := (demolished.run thwarted).after (.fresh ⟨fun _ => 0, 0⟩ ())
    let stack := createSymbol (thwarted.expandWithin 3) 0 (.of (.stack 1 true)) "stack" none (.displaced .origin)
    (∃ e, createSymbol (thwarted.expandWithin 3) 0 (.of .roof) "roof" (some 2) (.displaced .origin) w = .error e w) ∧
      (∃ e, stack w = .error e (stack.after w)) ∧ Seated w (stack.after w) 0 1 ∧
      (stack.after w).generatedBy 0 = [3] ∧ (stack.after w).generatedBy 1 = [4] := by
  intro w stack
  have hp : demolished.Passes World.names := by simp [demolished, World.names, World.knows]
  have heeds := hp.heedsBy (thwarted_passes (fun _ _ _ _ => rfl) fun _ _ _ _ _ => rfl) (.fresh ⟨fun _ => 0, 0⟩ ())
  have h := (Reached.start (pristine_fresh _ _)).run splits_names heeds
  obtain ⟨hbarred, -, hseated⟩ := h.creation_fails thwarted 3
  have hdead : (w.node? 2).map (·.alive) = some false := by decide +kernel
  obtain ⟨x, hx, hxdead⟩ := Option.map_eq_some_iff.1 hdead
  let place : Act ℚ (City.Kind ℚ) Unit ShapeId := placeSymbol 0 (.of (.stack 1 true)) "stack" none (.displaced .origin)
  have hfails : stack.answer? w = none := by decide +kernel
  have hplaces : place.answer? w = some 1 := by decide +kernel
  obtain ⟨e, v, he⟩ := Act.answer?_eq_none_iff.1 hfails
  obtain rfl : stack.after w = v := Act.after_error he
  obtain ⟨v, hs⟩ := Act.answer?_eq_some_iff.1 hplaces
  obtain rfl : place.after w = v := Act.after_ok hs
  have hsize : (place.after w).nodes.size = 3 := by decide +kernel
  have hkept : ∀ m < 4, (place.after w).isAlive m = true → (stack.after w).isAlive m = true := by decide +kernel
  refine ⟨hbarred (.createSymbol 0 (.of .roof) "roof" (some 2) (.displaced .origin)) (.inr ⟨2, x, rfl, hx, hxdead⟩),
    ⟨e, he⟩, ?_, by decide +kernel, by decide +kernel⟩
  refine hseated 0 _ "stack" none _ 1 (place.after w) e _ rfl hs he ?_ (fun m hm => ?_) (by decide +kernel)
  · rw [Grammar.expandWithin_guarded (thwarted_passes (fun _ _ _ _ => rfl) fun _ _ _ _ _ => rfl)]
  · exact hkept m (Nat.lt_succ_of_le ((le_size_of_isAlive hm).trans_eq hsize)) hm

end SceneGrammar
