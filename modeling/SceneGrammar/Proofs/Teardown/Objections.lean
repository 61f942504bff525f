/-
What objections do to a teardown, and what they do not.

A teardown asks the listeners about every node it destroys and goes on whatever they say, so that it leaves the same
behind whoever listens. Which objection it reports in the end is told by `openly`, the nodes that it destroys by calls of
its own, outside any deletion: the first objection to one of these in the order of their ends (`tells_within`). These are
the nodes that died and were exposed.

- `Reachable.destroy_heard`: both for every reachable world, every node and any listeners.
-/
import SceneGrammar.Proofs.Teardown.Exposure
import SceneGrammar.Proofs.Teardown.Unheeding

namespace SceneGrammar

namespace World

variable {α κ σ : Type}

/-- the world with other listeners -/
def heardBy (w : World α κ σ) (listeners : List (Node α → Option (Fault α))) : World α κ σ := { w with listeners }

/-- what the listeners say to the end of a node; its children are gone by then -/
def objectionTo (w : World α κ σ) (n : NodeId) : Option (Fault α) :=
  (w.node? n).bind fun x => w.listeners.findSome? (· { x with children := [] })

/-! ## What a teardown reports -/

theorem findSome?_congr {β γ : Type} {f g : β → Option γ} {l : List β} (h : ∀ x ∈ l, f x = g x) :
    l.findSome? f = l.findSome? g := by
  induction l with
  | nil => rfl
  | cons x l ih =>
    rw [List.findSome?_cons, List.findSome?_cons, h x List.mem_cons_self,
      ih fun y hy => h y (List.mem_cons_of_mem x hy)]

/-- what is destroyed openly with each of some nodes in turn, given what is with one -/
def openlyEach (one : NodeId → World α κ σ → List NodeId) (depth : Nat) : List NodeId → World α κ σ → List NodeId
  | [], _ => []
  | n :: ns, w => one n w ++ openlyEach one depth ns (destroyWithin depth n w).1

/-- the nodes that the destruction of a node destroys by calls of its own, outside any deletion, in order -/
def openly : Nat → NodeId → World α κ σ → List NodeId
  | 0, _, _ => []
  | depth + 1, n, w =>
    if w.isAlive n then openlyEach (openly depth) depth ((cleanAt depth n w).children n) (cleanAt depth n w) ++ [n]
    else []

/-- the first fault of the destruction of some nodes, one after another -/
def faultOfEach (depth : Nat) : List NodeId → World α κ σ → Option (Fault α)
  | [], _ => none
  | n :: ns, w => (destroyWithin depth n w).2.or (faultOfEach depth ns (destroyWithin depth n w).1)

theorem foldl_destroy_snd (depth : Nat) (ns : List NodeId) (w : World α κ σ) (fault : Option (Fault α)) :
    (ns.foldl (fun (w, fault) n =>
      let (w, fault') := destroyWithin depth n w
      (w, fault <|> fault')) (w, fault)).2 = fault.or (faultOfEach depth ns w) := by
  induction ns generalizing w fault with
  | nil => simp [faultOfEach]
  | cons n ns ih =>
    rw [List.foldl_cons, ih, faultOfEach, ← Option.or_assoc]
    cases fault <;> rfl

theorem objection?_of_childless {w : World α κ σ} {n : NodeId} (h : w.children n = []) :
    (w.announce n).objection? n = w.objectionTo n := by
  have hnode : (w.announce n).node? n = w.node? n := by
    rw [announce_eq]
    exact node?_congr rfl n
  rw [objection?, hnode, objectionTo, announce_eq]
  cases hx : w.node? n with
  | none => rfl
  | some x =>
    have hc : x.children = [] := by simpa [children, hx] using h
    rw [← hc]
    rfl

/-- the fault of a destruction: that of the first child to have one, else the objection to the end of the node -/
theorem destroyWithin_fault {depth : Nat} {w u : World α κ σ} {n : NodeId} (hl : w.isAlive n = true)
    (hu : u = ((cleanAt depth n w).children n).foldl (fun w k => (destroyWithin depth k w).1) (cleanAt depth n w))
    (hch : u.children n = []) :
    (destroyWithin (depth + 1) n w).2 =
      (faultOfEach depth ((cleanAt depth n w).children n) (cleanAt depth n w)).or (u.objectionTo n) := by
  have hfold := foldl_destroy_snd depth ((cleanAt depth n w).children n) (cleanAt depth n w) none
  rw [Option.none_or] at hfold
  rw [← hfold, ← objection?_of_childless hch, hu, ← foldl_destroy_fst depth _ _ none, destroyWithin, if_pos hl]
  simp only [Option.orElse_eq_orElse, Option.orElse_eq_or]
  rfl

section

variable {w v : World α κ σ} {d e : List NodeId} {c k : List ShapeId}

theorem Torn.dead_unique (h : Torn w v d c) (i : Torn w v e k) : d = e := by
  have heq := List.append_cancel_left (h.journal.symm.trans i.journal)
  exact List.map_injective_iff.2 (fun _ _ => Entry.announced.inj) heq

/-- while a node lives, what the listeners will say to its end stays the same -/
theorem Torn.objectionTo (h : Torn w v d c) {m : NodeId} (hl : v.isAlive m = true) :
    v.objectionTo m = w.objectionTo m := by
  have hm := ((h.isAlive m).1 hl).2
  have hlisten : v.listeners = w.listeners := congrArg Surroundings.listeners h.surroundings
  rw [World.objectionTo, h.node, hlisten, World.objectionTo]
  cases w.node? m <;> simp [hm]

end

/-- the destruction of a node reports the first objection to a node destroyed openly; these are the exposed ones -/
def DestroyTells (α κ σ : Type) (depth : Nat) : Prop :=
  ∀ (size effort : Nat) (w : World α κ σ) (n : NodeId), Ready size effort w → n ≤ size →
    effort + (size + 3 - n) ≤ depth → ∀ d c, Torn w (destroyWithin depth n w).1 d c →
      openly depth n w = d.filter (w.exposes n) ∧
        (destroyWithin depth n w).2 = (openly depth n w).findSome? w.objectionTo

section

variable {depth size effort : Nat} {w : World α κ σ} {n : NodeId}

/-- the same, told from a node whose children are destroyed in turn -/
theorem tells_each (ihf : DestroyKillsFrom α κ σ depth) (iht : DestroyTells α κ σ depth) (t : Tame w)
    (hl : w.isAlive n = true) (hspent : ∀ g ∈ w.generatedAt n, ¬ w.isAlive g = true)
    (hroom : ∀ b, n < b → effort + (size + 3 - b) ≤ depth) (ns : List NodeId) :
    ∀ (earlier d : List NodeId) (c : List ShapeId) (v : World α κ σ), w.children n = earlier ++ ns →
      Ready size effort v → Kills w v d c → (∀ b ∈ earlier, b ∈ d) →
      ∃ e k, Kills v (ns.foldl (fun w m => (destroyWithin depth m w).1) v) e k ∧ (∀ b ∈ ns, b ∈ d ++ e) ∧
        (∀ m ∈ e, n < m) ∧ openlyEach (openly depth) depth ns v = e.filter (w.exposes n) ∧
        faultOfEach depth ns v = (e.filter (w.exposes n)).findSome? w.objectionTo := by
  induction ns with
  | nil =>
    intro earlier d c v _ _ _ _
    exact ⟨[], [], Kills.refl v, by simp, by simp, rfl, rfl⟩
  | cons b ns ih =>
    intro earlier d c v hch hv hk hgone
    have hb : b ∈ w.children n := by simp [hch]
    have hsize : b ≤ size := by
      rw [← hv.size_eq, hk.torn.sizes.1]
      exact le_size_of_isAlive (t.child hb).1
    obtain ⟨e₁, k₁, h₁⟩ := ihf size effort v b hv (hroom b (t.child hb).2)
    obtain ⟨hopen, hfault⟩ := iht size effort v b hv hsize (hroom b (t.child hb).2) e₁ k₁ h₁.torn
    have hbe : b ∈ d ++ e₁ := by
      by_cases hbd : b ∈ d
      · exact List.mem_append_left _ hbd
      · exact List.mem_append_right _ (h₁.hit b List.mem_cons_self ((hk.torn.isAlive b).2 ⟨(t.child hb).1, hbd⟩))
    obtain ⟨e, k, hkills, hall, hyoung, hrest, hrestfault⟩ := ih (earlier ++ [b]) (d ++ e₁) (c ++ k₁)
      (destroyWithin depth b v).1 (by simp [hch]) (hv.kills h₁.toKills) (hk.trans h₁.toKills) fun a ha =>
        (List.mem_append.1 ha).elim (fun ha => List.mem_append_left _ (hgone a ha)) fun ha =>
          List.mem_singleton.1 ha ▸ hbe
    -- what is exposed to a child is exposed to the node, and the listeners say the same to it
    have hfilter : e₁.filter (v.exposes b) = e₁.filter (w.exposes n) := by
      refine List.filter_congr fun m hm => Bool.eq_iff_iff.2 ?_
      have hreach : Reach v b m := by simpa using h₁.reached m hm
      rw [exposes_iff hv.tame hreach.alive_left, exposes_iff t hl]
      exact (hk.exposed_child t hch hgone hspent hreach).symm
    have hsay : (e₁.filter (w.exposes n)).findSome? v.objectionTo =
        (e₁.filter (w.exposes n)).findSome? w.objectionTo := by
      refine findSome?_congr fun m hm => ?_
      exact hk.torn.objectionTo (h₁.alive m (List.mem_filter.1 hm).1)
    rw [hopen, hfilter] at hfault
    refine ⟨e₁ ++ e, k₁ ++ k, h₁.toKills.trans hkills, fun a ha => ?_, fun m hm => ?_, ?_, ?_⟩
    · rw [← List.append_assoc]
      exact (List.mem_cons.1 ha).elim (fun h => List.mem_append_left _ (h ▸ hbe)) (hall a)
    · refine (List.mem_append.1 hm).elim (fun hm => ?_) (hyoung m)
      have hreach : Reach v b m := by simpa using h₁.reached m hm
      exact (t.child hb).2.trans_le (hreach.le hv.tame)
    · rw [openlyEach, hopen, hfilter, hrest, List.filter_append]
    · rw [faultOfEach, hfault, hsay, hrestfault, List.filter_append, List.findSome?_append]

theorem destroy_tells_step (ihf : DestroyKillsFrom α κ σ depth) (ihc : CleanKillsFrom α κ σ depth)
    (iht : DestroyTells α κ σ depth) : DestroyTells α κ σ (depth + 1) := by
  intro size effort w n h _ hd dead cleaned htorn
  by_cases hl : w.isAlive n = true
  swap
  · have hfault : (destroyWithin (depth + 1) n w).2 = none := by rw [destroyWithin, if_neg hl]
    rw [destroyWithin_dead hl] at htorn
    rw [htorn.dead_unique (Torn.refl w), hfault, openly, if_neg hl]
    exact ⟨rfl, rfl⟩
  obtain ⟨⟨d, c, h₁⟩, hr, hl₁, hroom⟩ := destroy_begins ihc h hd hl
  have hfault := @destroyWithin_fault _ _ _ depth w _ n hl rfl
  rw [destroyWithin_alive hl] at htorn
  rw [openly, if_pos hl]
  generalize cleanAt depth n w = v at h₁ hr hl₁ hfault htorn ⊢
  have hspent (g : NodeId) (hg : g ∈ v.generatedAt n) : ¬ v.isAlive g = true := fun hlg =>
    ((h₁.torn.isAlive g).1 hlg).2 (h₁.hit g (h₁.torn.generatedAt_of hg) ((h₁.torn.isAlive g).1 hlg).1)
  obtain ⟨e, k, h₂, hall, hlater, hopen, hsay⟩ := tells_each ihf iht hr.tame hl₁ hspent hroom (v.children n) [] [] [] v rfl hr
    (Kills.refl v) (by simp)
  generalize (v.children n).foldl (fun w m => (destroyWithin depth m w).1) v = u at h₂ hfault htorn
  -- the children are gone when the listeners are told of the node, and the node is still there
  have hch : u.children n = [] := by
    rw [h₂.torn.children]
    refine List.filter_eq_nil_iff.2 fun b hb => ?_
    simpa using hall b hb
  have hyoung (m : NodeId) (hm : m ∈ d) : n < m := by
    obtain ⟨g, hg, hgm⟩ := h₁.reached m hm
    exact (h.tame.lt_of_successor (List.mem_append_right _ hg)).trans_le (hgm.le h.tame)
  have hlu : u.isAlive n = true := (h₂.torn.isAlive n).2 ⟨hl₁, fun hn => lt_irrefl n (hlater n hn)⟩
  have hbury : Torn u ((u.announce n).bury n) [n] [] := by
    have tu := h₂.tame hr.tame
    exact Torn.bury tu.registry_nodup (fun p hp => (tu.mem_children n p).1 hp) tu.children_nodup
  have hdead : dead = d ++ e ++ [n] := htorn.dead_unique ((h₁.torn.trans h₂.torn).trans hbury)
  have hsheltered : d.filter (w.exposes n) = [] := by
    refine List.filter_eq_nil_iff.2 fun m hm hexp => ?_
    obtain ⟨g, hg, hgm⟩ := h₁.reached m hm
    cases (exposes_iff h.tame hl).1 hexp with
    | self => exact lt_irrefl n (hyoung n hm)
    | under _ hnone _ => exact hnone g (List.mem_append_left _ hg) hgm
  have hkept : e.filter (v.exposes n) = e.filter (w.exposes n) := by
    refine List.filter_congr fun m hm => Bool.eq_iff_iff.2 ?_
    rw [exposes_iff hr.tame hl₁, exposes_iff h.tame hl]
    exact (h₁.exposed_iff h.tame (h₂.alive m hm)).symm
  have hself : w.exposes n n = true := (exposes_iff h.tame hl).2 .self
  have hlist : openlyEach (openly depth) depth (v.children n) v ++ [n] = dead.filter (w.exposes n) := by
    rw [hopen, hkept, hdead, List.filter_append, List.filter_append, hsheltered, List.nil_append,
      List.filter_cons_of_pos hself, List.filter_nil]
  refine ⟨hlist, ?_⟩
  have hobject : (e.filter (v.exposes n)).findSome? v.objectionTo = (e.filter (v.exposes n)).findSome? w.objectionTo :=
    findSome?_congr fun m hm => h₁.torn.objectionTo (h₂.alive m (List.mem_filter.1 hm).1)
  rw [hfault hch, hsay, hobject, hopen, List.findSome?_append, (h₁.torn.trans h₂.torn).objectionTo hlu]
  simp

end

theorem tells_within (depth : Nat) : DestroyTells α κ σ depth := by
  induction depth with
  | zero =>
    intro size effort w n _ hn hd
    have hpos : size + 3 - size ≤ size + 3 - n := Nat.sub_le_sub_left hn _
    omega
  | succ depth ih => exact destroy_tells_step (killsFrom_within depth).1 (killsFrom_within depth).2 ih

/-- the nodes that destroying a node destroys by calls of its own, outside any deletion, in order -/
def openEnds (w : World α κ σ) (n : NodeId) : List NodeId := openly w.teardownBound n w

section

variable {w : World α κ σ} (listeners : List (Node α → Option (Fault α)))

theorem Tame.heardBy (t : Tame w) : Tame (w.heardBy listeners) :=
  ⟨t.mem_children, t.children_nodup, t.parent_alive, t.home, t.newer, t.registry_nodup⟩

theorem exposes_heardBy (n m : NodeId) : (w.heardBy listeners).exposes n m = w.exposes n m := by
  have hwalk : (w.heardBy listeners).walk n = w.walk n := (walkWithin_mute _ _ n).symm.trans (walkWithin_mute w _ n)
  have hreach (g : NodeId) : (w.heardBy listeners).reachable g = w.reachable g :=
    (reachFrom_mute _ _ _ _).symm.trans (reachFrom_mute w _ _ _)
  simp only [exposes, hwalk, hreach]
  rfl

/-- what teardowns leave of a world with listeners and without, if it differs in what they do not heed alone -/
theorem eq_of_heardBy {u v : World α κ σ} {d e : List NodeId} {c k : List ShapeId} (h : Torn (w.heardBy listeners) u d c)
    (i : Torn (w.heardBy []) v e k) (huv : u.mute = v.mute) : u = { v with listeners, warnings := u.warnings } := by
  have hlisten : u.listeners = listeners := congrArg Surroundings.listeners h.surroundings
  have hentropy : u.entropy = v.entropy :=
    (congrArg Surroundings.entropy h.surroundings).trans (congrArg Surroundings.entropy i.surroundings).symm
  rw [← hlisten]
  calc u = { v with listeners := u.listeners, warnings := u.warnings, entropy := u.entropy } := eq_of_mute huv
    _ = { v with listeners := u.listeners, warnings := u.warnings } := by rw [hentropy]

/-- what is destroyed does not depend on who listens, but for the log -/
theorem destroyWithin_heardBy (t : Tame w) (n : NodeId) :
    ∃ log, (destroyWithin w.teardownBound n (w.heardBy listeners)).1 =
      { (destroyWithin w.teardownBound n (w.heardBy [])).1 with listeners, warnings := log } := by
  obtain ⟨d, c, hf⟩ := destroy_killsFrom (t.heardBy listeners) n
  obtain ⟨e, k, hg⟩ := destroy_killsFrom (t.heardBy []) n
  exact ⟨_, eq_of_heardBy listeners hf.torn hg.torn ((unheeding_within w.teardownBound).1 n (w.heardBy listeners) _ rfl)⟩

theorem cleanWithin_heardBy (t : Tame w) (s : ShapeId) :
    ∃ log, cleanWithin w.teardownBound s (w.heardBy listeners) =
      { cleanWithin w.teardownBound s (w.heardBy []) with listeners, warnings := log } := by
  obtain ⟨d, c, hf, -⟩ := clean_killsFrom (t.heardBy listeners) s
  obtain ⟨e, k, hg, -⟩ := clean_killsFrom (t.heardBy []) s
  exact ⟨_, eq_of_heardBy listeners hf.torn hg.torn ((unheeding_within w.teardownBound).2 s (w.heardBy listeners) _ rfl)⟩

/-- what destroying a living node reports: the first objection to an open end -/
theorem Tame.destroy_fault (t : Tame w) {n : NodeId} (hl : w.isAlive n = true) :
    ∃ d c, KillsFrom w (destroyWithin w.teardownBound n w).1 [n] [] d c ∧ w.openEnds n = d.filter (w.exposes n) ∧
      (destroyWithin w.teardownBound n w).2 = (w.openEnds n).findSome? w.objectionTo := by
  obtain ⟨d, c, hf⟩ := destroy_killsFrom t n
  have hbound : w.effort + (w.nodes.size + 3 - n) ≤ w.teardownBound := by
    rw [teardownBound_eq]
    exact Nat.add_le_add_left (Nat.sub_le _ _) _
  obtain ⟨hopen, hfault⟩ := tells_within w.teardownBound w.nodes.size w.effort w n ⟨t, rfl, le_rfl⟩
    (le_size_of_isAlive hl) hbound d c hf.torn
  exact ⟨d, c, hf, hopen, hfault⟩

/-- destroying a node, by what is left and what is reported -/
theorem destroy_eq (n : NodeId) (w : World α κ σ) :
    destroy n w = match (destroyWithin w.teardownBound n w).2 with
      | none => .ok () (destroyWithin w.teardownBound n w).1
      | some fault => .error fault (destroyWithin w.teardownBound n w).1 := by
  unfold destroy
  rcases destroyWithin w.teardownBound n w with ⟨v, _ | fault⟩ <;> rfl

theorem objectionTo_quiet {w : World α κ σ} (h : w.listeners = []) (n : NodeId) : w.objectionTo n = none := by
  rw [objectionTo, h]
  cases w.node? n <;> rfl

/-- where nobody listens no destruction fails -/
theorem Tame.destroy_quiet (t : Tame w) (h : w.listeners = []) (n : NodeId) : ∃ v, destroy n w = .ok () v := by
  have hfault : (destroyWithin w.teardownBound n w).2 = none := by
    by_cases hl : w.isAlive n = true
    · obtain ⟨-, -, -, -, hfault⟩ := t.destroy_fault hl
      exact hfault.trans (List.findSome?_eq_none_iff.2 fun m _ => objectionTo_quiet h m)
    · rw [teardownBound_eq, show w.effort + (w.nodes.size + 3) = w.effort + w.nodes.size + 2 + 1 from rfl]
      simp only [destroyWithin, if_neg hl]
  exact ⟨_, by rw [destroy_eq, hfault]⟩

theorem Tame.destroyAll_quiet (ns : List NodeId) {w : World α κ σ} (t : Tame w) (h : w.listeners = []) :
    ∃ v, destroyAll ns w = .ok () v := by
  induction ns generalizing w with
  | nil => exact ⟨w, rfl⟩
  | cons n ns ih =>
    obtain ⟨u, hu⟩ := t.destroy_quiet h n
    obtain ⟨d, c, hf⟩ := destroy_kills t n
    rw [Act.after_ok hu] at hf
    obtain ⟨v, hv⟩ := ih (hf.toKills.tame t) ((congrArg Surroundings.listeners hf.torn.surroundings).trans h)
    refine ⟨v, ?_⟩
    simp only [destroyAll, hu]
    exact hv

/-- where nobody listens a world can be torn down -/
theorem Sound.clear_quiet (hw : Sound w) (h : w.listeners = []) : ∃ v, clear w = .ok () v := by
  obtain ⟨v, hv⟩ := hw.clearAgenda.toTame.destroyAll_quiet (World.roots { w with agenda := w.agenda.clear }) h
  refine ⟨{ v with bound := [] }, ?_⟩
  unfold clear clearScene
  rw [hv]

/-- the open ends are the same whoever listens -/
theorem Tame.openEnds_heardBy (t : Tame w) {n : NodeId} (hl : w.isAlive n = true) :
    (w.heardBy listeners).openEnds n = w.openEnds n := by
  obtain ⟨d, c, hf, hopen, -⟩ := t.destroy_fault hl
  obtain ⟨e, k, hg, hopen', -⟩ := (t.heardBy listeners).destroy_fault hl
  have hsame : (destroyWithin w.teardownBound n (w.heardBy listeners)).1.mute =
      (destroyWithin w.teardownBound n w).1.mute := (unheeding_within w.teardownBound).1 n _ w rfl
  have hjournal : (destroyWithin w.teardownBound n (w.heardBy listeners)).1.journal =
      (destroyWithin w.teardownBound n w).1.journal := by
    have hmute := congrArg World.journal hsame
    exact hmute
  have hdead : w.journal.toList ++ e.map Entry.announced = w.journal.toList ++ d.map Entry.announced := by
    rw [← hf.torn.journal, ← hjournal]
    exact hg.torn.journal.symm
  have heq : e = d := List.map_injective_iff.2 (fun _ _ => Entry.announced.inj) (List.append_cancel_left hdead)
  rw [hopen', hopen, heq, funext (exposes_heardBy listeners n)]

/-- a deletion does not fail, whoever listens, and leaves the same world, but for listeners and log -/
theorem Sound.deleteGenerated_heardBy [SymbolKind κ] (h : Sound w) {s : ShapeId} (hs : s < w.shapes.size) :
    ∃ (v : World α κ σ) (log : Array Warning), deleteGenerated s (w.heardBy []) = .ok () v ∧
      deleteGenerated s (w.heardBy listeners) = .ok () { v with listeners, warnings := log } := by
  cases hg : (w.shape? s).bind (·.generated) with
  | none =>
    have hdone (ls : List (Node α → Option (Fault α))) : deleteGenerated s (w.heardBy ls) = .ok () (w.heardBy ls) := by
      have hnone : ((w.heardBy ls).shape? s).bind (·.generated) = none := hg
      rw [deleteGenerated, hnone]
    exact ⟨w.heardBy [], w.warnings, hdone [], hdone listeners⟩
  | some gs =>
    obtain ⟨n, hn⟩ := h.housed s hs
    have hdone (ls : List (Node α → Option (Fault α))) :
        deleteGenerated s (w.heardBy ls) = .ok () (cleanWithin w.teardownBound s (w.heardBy ls)) := by
      have hsome : ((w.heardBy ls).shape? s).bind (·.generated) = some gs := hg
      have hnode : ((w.heardBy ls).shape? s).bind (·.node) = some n := hn
      rw [deleteGenerated, hsome, inContext, hnode]
      rfl
    obtain ⟨log, hleft⟩ := cleanWithin_heardBy listeners h.toTame s
    exact ⟨_, log, hdone [], hleft ▸ hdone listeners⟩

end

end World

open World

section

variable {α κ σ : Type} [Scalar α] [SymbolKind κ]

/-- **Objections.** In a reachable world, whatever the listeners say and to which nodes:
- a destruction leaves the same world as if nobody listened, but for the listeners and the log;
- it fails if somebody objects to a node that it destroys outside any deletion, with the first such objection;
- these nodes are, in the order of their ends, those that the walk of the node comes to and that nothing generated by a
  node met before leads to;
- a deletion never fails, and it leaves the same world, too. -/
theorem Reachable.destroy_heard {w : World α κ σ} (h : Reachable w) {n : NodeId} (hl : w.isAlive n = true)
    (listeners : List (Node α → Option (Fault α))) :
    (∃ (v : World α κ σ) (dead : List NodeId) (log : Array Warning), destroy n (w.heardBy []) = .ok () v ∧
      v.journal.toList = w.journal.toList ++ dead.map Entry.announced ∧
      w.openEnds n = dead.filter (w.exposes n) ∧
      destroy n (w.heardBy listeners) =
        match (w.openEnds n).findSome? (w.heardBy listeners).objectionTo with
        | none => .ok () { v with listeners, warnings := log }
        | some fault => .error fault { v with listeners, warnings := log }) ∧
    ∀ s, s < w.shapes.size → ∃ (v : World α κ σ) (log : Array Warning), deleteGenerated s (w.heardBy []) = .ok () v ∧
      deleteGenerated s (w.heardBy listeners) = .ok () { v with listeners, warnings := log } := by
  have hs := h.sound
  have t := hs.toTame
  refine ⟨?_, fun s hlt => hs.deleteGenerated_heardBy listeners hlt⟩
  obtain ⟨log, hleft⟩ := destroyWithin_heardBy listeners t n
  obtain ⟨d, c, hf, hopen, hquiet⟩ := (t.heardBy []).destroy_fault hl
  obtain ⟨-, -, -, -, hfault⟩ := (t.heardBy listeners).destroy_fault hl
  have hnone : (destroyWithin w.teardownBound n (w.heardBy [])).2 = none := by
    exact hquiet.trans (List.findSome?_eq_none_iff.2 fun m _ => objectionTo_quiet rfl m)
  have hends : (destroyWithin w.teardownBound n (w.heardBy listeners)).2 =
      (w.openEnds n).findSome? (w.heardBy listeners).objectionTo := by
    rw [← t.openEnds_heardBy listeners hl]
    exact hfault
  rw [t.openEnds_heardBy [] hl, funext (exposes_heardBy [] n)] at hopen
  refine ⟨(destroyWithin w.teardownBound n (w.heardBy [])).1, d, log, ?_, hf.torn.journal, hopen, ?_⟩
  · rw [destroy_eq, show (w.heardBy []).teardownBound = w.teardownBound from rfl, hnone]
  · rw [← hends, ← hleft]
    exact destroy_eq n (w.heardBy listeners)

end

/-- somebody who objects to the end of lamps -/
def lampKeeper : Node Float → Option (Fault Float) := fun x => if x.name = "lamp" then some (.raised "dark") else none

theorem objectionTo_lampKeeper {κ σ : Type} (w : World Float κ σ) (n : NodeId) :
    (w.heardBy [lampKeeper]).objectionTo n = if w.nodeName n = "lamp" then some (.raised "dark") else none := by
  have hnode : (w.heardBy [lampKeeper]).node? n = w.node? n := node?_congr rfl n
  rw [objectionTo, hnode, nodeName]
  cases w.node? n <;> simp [lampKeeper, heardBy]

/-- the lamp goes with the content of the first root, and then nobody hears of the objection; under the second root it is
in the open -/
theorem destroy_heard_abroad :
    let w := (lanternAbroad.run idle).after (.fresh ⟨fun _ => 0, 0⟩ ())
    w.openEnds 1 = [1] ∧ w.openEnds 2 = [5, 4, 2] ∧
      (∃ v log, destroy 1 (w.heardBy []) = .ok () v ∧
        destroy 1 (w.heardBy [lampKeeper]) = .ok () { v with listeners := [lampKeeper], warnings := log }) ∧
      ∃ v log, destroy 2 (w.heardBy []) = .ok () v ∧
        destroy 2 (w.heardBy [lampKeeper]) =
          .error (.raised "dark") { v with listeners := [lampKeeper], warnings := log } := by
  have heeds : lanternAbroad.Heeds idle (.fresh ⟨fun _ => 0, 0⟩ ()) :=
    Prog.heeds_perform (by decide +kernel) rfl <| Prog.heeds_perform (by decide +kernel) rfl <|
      Prog.heeds_perform (by decide +kernel) rfl <| Prog.heeds_perform (by decide +kernel) rfl rfl
  have h := Reachable.run idle lanternAbroad (.start (pristine_fresh _ _)) heeds
  intro w
  have hends₁ : w.openEnds 1 = [1] := by decide +kernel
  have hends₂ : w.openEnds 2 = [5, 4, 2] := by decide +kernel
  obtain ⟨⟨v, -, log, hv, -, -, hw⟩, -⟩ := h.destroy_heard (n := 1) (by decide +kernel) [lampKeeper]
  obtain ⟨⟨v', -, log', hv', -, -, hw'⟩, -⟩ := h.destroy_heard (n := 2) (by decide +kernel) [lampKeeper]
  have hroot : w.nodeName 1 ≠ "lamp" := by decide +kernel
  have hlamp : w.nodeName 5 = "lamp" := by decide +kernel
  rw [hends₁, List.findSome?_cons, objectionTo_lampKeeper, if_neg hroot] at hw
  rw [hends₂, List.findSome?_cons, objectionTo_lampKeeper, if_pos hlamp] at hw'
  exact ⟨hends₁, hends₂, ⟨v, log, hv, hw⟩, v', log', hv', hw'⟩

end SceneGrammar
