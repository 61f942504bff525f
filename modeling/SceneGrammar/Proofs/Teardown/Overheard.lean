/-
Who is told of what in a teardown, and when.

`destroyWithin` asks the listeners for the first objection and keeps no record of whom it asked. `destroyOverheard` and
`cleanOverheard` are the same teardown with a record: of every node they come to tell of, and of the world at that
moment; the listeners are called one after another, whatever the others say, and all that goes wrong is collected. They
leave the same world and report the same fault (`overheard_within`).

`Midst w u pre`: in the midst of a teardown of `w`, after the nodes `pre` have died, the scene is that of `u`. In a tame
world every moment of the record is of this kind (`heard_within`).

- `Reached.destroy_tells`: in a world reached in order each listener is called for each node that dies, once, in one
  order, and for no other; the node is alive then, registered and below its parent, and what it led to is dead.
-/
import SceneGrammar.Proofs.Orderly
import SceneGrammar.Proofs.Ownership

namespace SceneGrammar

namespace World

variable {α κ σ β : Type}

/-- a node that is about to be destroyed, and the world at that moment -/
structure Moment (α κ σ : Type) where
  node : NodeId
  found : World α κ σ

/-- one call of a listener -/
structure Call (α κ σ : Type) where
  /-- the place of the listener: the world's own comes first -/
  listener : Nat
  node : NodeId
  found : World α κ σ

/-- the calls at a moment, in order: the world's own listener retires the node, the others find it retired -/
def Moment.calls (m : Moment α κ σ) : List (Call α κ σ) :=
  ⟨0, m.node, m.found⟩ ::
    (List.range m.found.listeners.length).map fun i => ⟨i + 1, m.node, m.found.announce m.node⟩

/-- what a listener answers to a call; the world's own never objects -/
def Call.answer (c : Call α κ σ) : Option (Fault α) :=
  match c.listener with
  | 0 => none
  | i + 1 => (c.found.node? c.node).bind fun x => c.found.listeners[i]?.bind (· x)

/-- a turn of a loop with a record, which goes on after what is on record already -/
def overhear (f : β → NodeId → β × List (Moment α κ σ)) (r : β × List (Moment α κ σ)) (n : NodeId) :
    β × List (Moment α κ σ) := ((f r.1 n).1, r.2 ++ (f r.1 n).2)

mutual

/-- destroy a node, with a record of the moments at which the listeners were told -/
def destroyOverheard : Nat → NodeId → World α κ σ → (World α κ σ × Option (Fault α)) × List (Moment α κ σ)
  | 0, _, w => ((w, some .tooDeep), [])
  | depth + 1, n, w =>
    if w.isAlive n then
      let (w, before) := match w.shapeOn? n with
        | none => (w, [])
        | some s => cleanOverheard depth s w
      let ((w, faults), below) := (w.children n).foldl (overhear fun (w, faults) c =>
        let ((w, fault), moments) := destroyOverheard depth c w
        ((w, faults ++ fault.toList), moments)) ((w, []), [])
      let now : Moment α κ σ := ⟨n, w⟩
      (((w.announce n).bury n, (faults ++ now.calls.filterMap Call.answer).head?), before ++ below ++ [now])
    else ((w, none), [])

/-- delete what a shape has generated, with the same record -/
def cleanOverheard : Nat → ShapeId → World α κ σ → World α κ σ × List (Moment α κ σ)
  | 0, _, w => (w, [])
  | depth + 1, s, w =>
    match (w.shape? s).bind (·.generated) with
    | none => (w, [])
    | some generated =>
      let (w, moments) := generated.foldl (overhear fun w n =>
        if w.isAlive n then
          let (w, before) := match w.shapeOn? n with
            | none => (w, [])
            | some t => cleanOverheard depth t w
          match destroyOverheard depth n w with
          | ((w, none), moments) => (w, before ++ moments)
          | ((w, some _), moments) => (w.warnCleanup s n, before ++ moments)
        else (w, [])) (w.takeGenerated s, [])
      (w.markCleared s, moments)

end

/-! ## The record changes nothing -/

theorem foldl_overhear_fst (f : β → NodeId → β × List (Moment α κ σ)) (ns : List NodeId) (b : β)
    (ms : List (Moment α κ σ)) : (ns.foldl (overhear f) (b, ms)).1 = ns.foldl (fun b n => (f b n).1) b := by
  induction ns generalizing b ms with
  | nil => rfl
  | cons n ns ih => exact ih _ _

theorem foldl_overhear_snd (f : β → NodeId → β × List (Moment α κ σ)) (ns : List NodeId) (b : β)
    (ms : List (Moment α κ σ)) :
    (ns.foldl (overhear f) (b, ms)).2 = ms ++ (ns.foldl (overhear f) (b, [])).2 := by
  induction ns generalizing b ms with
  | nil => simp
  | cons n ns ih =>
    rw [List.foldl_cons, List.foldl_cons, overhear, overhear, ih, ih _ ([] ++ _), List.nil_append, List.append_assoc]

/-- a list read place by place -/
theorem filterMap_places {γ : Type} (l : List β) (f : β → Option γ) :
    (List.range l.length).filterMap (fun i => l[i]?.bind f) = l.filterMap f := by
  induction l using List.reverseRecOn with
  | nil => rfl
  | append_singleton l a ih =>
    have hinit : (List.range l.length).filterMap (fun i => (l ++ [a])[i]?.bind f) = l.filterMap f := by
      rw [← ih]
      refine List.filterMap_congr fun i hi => ?_
      rw [List.getElem?_append_left (List.mem_range.1 hi)]
    rw [List.length_append, List.length_singleton, List.range_succ, List.filterMap_append, hinit, List.filterMap_append]
    simp [List.filterMap_cons]

/-- the first of all answers is the first objection -/
theorem head?_answers (w : World α κ σ) (n : NodeId) :
    ((Moment.calls ⟨n, w⟩).filterMap Call.answer).head? = (w.announce n).objection? n := by
  have hlisteners : (w.announce n).listeners = w.listeners := by rw [announce_eq]
  have hanswers : (Moment.calls ⟨n, w⟩).filterMap Call.answer = (List.range w.listeners.length).filterMap fun i =>
      ((w.announce n).node? n).bind fun x => w.listeners[i]?.bind (· x) := by
    rw [Moment.calls, List.filterMap_cons_none rfl, List.filterMap_map, ← hlisteners]
    rfl
  rw [hanswers, objection?, hlisteners]
  cases (w.announce n).node? n with
  | none => simp
  | some x => simp only [Option.bind_some, filterMap_places, List.head?_filterMap]

/-- the world after the shape on a node, if there is one, was cleaned, with the record -/
def cleanAtOverheard (depth : Nat) (n : NodeId) (w : World α κ σ) : World α κ σ × List (Moment α κ σ) :=
  match w.shapeOn? n with
  | none => (w, [])
  | some s => cleanOverheard depth s w

/-- a turn of the loop over children, with the record; all that goes wrong is collected -/
def childOverheard (depth : Nat) (p : World α κ σ × List (Fault α)) (c : NodeId) :
    (World α κ σ × List (Fault α)) × List (Moment α κ σ) :=
  (((destroyOverheard depth c p.1).1.1, p.2 ++ (destroyOverheard depth c p.1).1.2.toList), (destroyOverheard depth c p.1).2)

/-- the children of a node destroyed, with the record -/
def childrenOverheard (depth : Nat) (n : NodeId) (w : World α κ σ) :
    (World α κ σ × List (Fault α)) × List (Moment α κ σ) :=
  (w.children n).foldl (overhear (childOverheard depth)) ((w, []), [])

/-- a turn of the loop over a list, with the record -/
def cleanOneOverheard (depth : Nat) (s : ShapeId) (w : World α κ σ) (n : NodeId) :
    World α κ σ × List (Moment α κ σ) :=
  if w.isAlive n then
    let (w, before) := cleanAtOverheard depth n w
    match destroyOverheard depth n w with
    | ((w, none), moments) => (w, before ++ moments)
    | ((w, some _), moments) => (w.warnCleanup s n, before ++ moments)
  else (w, [])

theorem destroyWithin_alive_eq {depth : Nat} {n : NodeId} {w v u : World α κ σ} {fault : Option (Fault α)}
    (hl : w.isAlive n = true) (hb : cleanAt depth n w = v)
    (hc : (v.children n).foldl (fun (w, fault) c =>
      let (w, fault') := destroyWithin depth c w
      (w, fault <|> fault')) (v, none) = (u, fault)) :
    destroyWithin (depth + 1) n w = ((u.announce n).bury n, fault <|> (u.announce n).objection? n) := by
  have hparts : destroyWithin (depth + 1) n w =
      (let p := ((cleanAt depth n w).children n).foldl (fun (w, fault) c =>
          let (w, fault') := destroyWithin depth c w
          (w, fault <|> fault')) (cleanAt depth n w, none)
       ((p.1.announce n).bury n, p.2 <|> (p.1.announce n).objection? n)) := by
    rw [destroyWithin, if_pos hl]
    rfl
  rw [hparts, hb, hc]

theorem destroyOverheard_alive {depth : Nat} {n : NodeId} {w u : World α κ σ} {faults : List (Fault α)}
    {before below : List (Moment α κ σ)} (hl : w.isAlive n = true) {v : World α κ σ}
    (hb : cleanAtOverheard depth n w = (v, before)) (hc : childrenOverheard depth n v = ((u, faults), below)) :
    destroyOverheard (depth + 1) n w = (((u.announce n).bury n,
      (faults ++ (Moment.calls ⟨n, u⟩).filterMap Call.answer).head?), before ++ below ++ [⟨n, u⟩]) := by
  unfold cleanAtOverheard at hb
  unfold childrenOverheard at hc
  unfold childOverheard at hc
  rw [destroyOverheard, if_pos hl]
  rw [hb]
  simp only
  rw [hc]

theorem cleanOverheard_some {depth : Nat} {w : World α κ σ} {s : ShapeId} {gs : List NodeId}
    (h : (w.shape? s).bind (·.generated) = some gs) : cleanOverheard (depth + 1) s w =
      ((gs.foldl (overhear (cleanOneOverheard depth s)) (w.takeGenerated s, [])).1.markCleared s,
        (gs.foldl (overhear (cleanOneOverheard depth s)) (w.takeGenerated s, [])).2) := by
  rw [cleanOverheard, h]
  rfl

/-- the loop over children collects all that goes wrong; the first of it is what the other loop keeps -/
theorem foldl_faults (f : NodeId → World α κ σ → World α κ σ × Option (Fault α)) (ns : List NodeId) (w : World α κ σ)
    (faults : List (Fault α)) :
    (ns.foldl (fun (p : World α κ σ × List (Fault α)) c => ((f c p.1).1, p.2 ++ (f c p.1).2.toList)) (w, faults)).map
        id List.head? =
      ns.foldl (fun (w, fault) c =>
        let (w, fault') := f c w
        (w, fault <|> fault')) (w, faults.head?) := by
  induction ns generalizing w faults with
  | nil => rfl
  | cons n ns ih =>
    rw [List.foldl_cons, List.foldl_cons, ih]
    have hhead : (faults ++ (f n w).2.toList).head? = (faults.head? <|> (f n w).2) := by
      cases faults <;> cases (f n w).2 <;> rfl
    rw [hhead]

section

variable {depth : Nat}

theorem cleanAtOverheard_fst (ihc : ∀ s (w : World α κ σ), (cleanOverheard depth s w).1 = cleanWithin depth s w)
    (n : NodeId) (w : World α κ σ) : (cleanAtOverheard depth n w).1 = cleanAt depth n w := by
  unfold cleanAtOverheard cleanAt
  cases w.shapeOn? n with
  | none => rfl
  | some s => exact ihc s w

theorem cleanOneOverheard_fst (ihd : ∀ n (w : World α κ σ), (destroyOverheard depth n w).1 = destroyWithin depth n w)
    (ihc : ∀ s (w : World α κ σ), (cleanOverheard depth s w).1 = cleanWithin depth s w) (s : ShapeId)
    (w : World α κ σ) (n : NodeId) : (cleanOneOverheard depth s w n).1 = cleanOne depth s w n := by
  unfold cleanOneOverheard cleanOne
  split_ifs
  · rw [← cleanAtOverheard_fst ihc]
    rcases cleanAtOverheard depth n w with ⟨v, before⟩
    simp only [← ihd]
    rcases destroyOverheard depth n v with ⟨⟨u, _ | e⟩, moments⟩ <;> rfl
  · rfl

end

/-- **One teardown.** With a record or without, it leaves the same world and reports the same fault. -/
theorem overheard_within (depth : Nat) :
    (∀ n (w : World α κ σ), (destroyOverheard depth n w).1 = destroyWithin depth n w) ∧
      ∀ s (w : World α κ σ), (cleanOverheard depth s w).1 = cleanWithin depth s w := by
  induction depth with
  | zero => exact ⟨fun n w => rfl, fun s w => rfl⟩
  | succ depth ih =>
    obtain ⟨ihd, ihc⟩ := ih
    refine ⟨fun n w => ?_, fun s w => ?_⟩
    · by_cases hl : w.isAlive n = true
      swap
      · rw [destroyOverheard, destroyWithin, if_neg hl, if_neg hl]
      rcases hb : cleanAtOverheard depth n w with ⟨v, before⟩
      rcases hc : childrenOverheard depth n v with ⟨⟨u, faults⟩, below⟩
      have hv : cleanAt depth n w = v := by rw [← cleanAtOverheard_fst ihc, hb]
      have hu : (v.children n).foldl (fun (w, fault) c =>
          let (w, fault') := destroyWithin depth c w
          (w, fault <|> fault')) (v, none) = (u, faults.head?) := by
        have hfold : (childrenOverheard depth n v).1 = (u, faults) := by rw [hc]
        rw [childrenOverheard, foldl_overhear_fst] at hfold
        simp only [childOverheard, ihd] at hfold
        refine (foldl_faults (destroyWithin depth) (v.children n) v []).symm.trans ?_
        rw [hfold]
        rfl
      rw [destroyOverheard_alive hl hb hc, destroyWithin_alive_eq hl hv hu, ← head?_answers]
      refine congrArg (Prod.mk _) ?_
      cases faults <;> rfl
    · cases hg : (w.shape? s).bind (·.generated) with
      | none => rw [cleanOverheard, cleanWithin, hg]
      | some gs =>
        rw [cleanOverheard_some hg, cleanWithin_some hg, foldl_overhear_fst]
        simp only [cleanOneOverheard_fst ihd ihc]

/-! ## In the midst of a teardown -/

section

variable {w v u : World α κ σ} {d e pre : List NodeId} {c : List ShapeId} {ms ns : List (Moment α κ σ)}

/-- the scene of `u` is that of `w` after the nodes `pre` have died -/
structure Midst (w u : World α κ σ) (pre : List NodeId) : Prop where
  node : ∀ m, u.node? m = (w.node? m).map fun x =>
    { x with
      parent := if m ∈ pre then none else x.parent
      children := x.children.filter (· ∉ pre)
      alive := if m ∈ pre then false else x.alive }
  registry : u.registry = w.registry.filter (· ∉ pre)
  bound : u.bound = w.bound.filter fun p => ¬ (p.1 ∈ pre ∧ (w.shapeOn? p.1).isSome)
  listeners : u.listeners = w.listeners

theorem Torn.midst (t : Torn w v d c) : Midst w v d :=
  ⟨t.node, t.registry, t.bound, congrArg Surroundings.listeners t.surroundings⟩

theorem Midst.shapeOn? (h : Midst w u pre) (m : NodeId) : u.shapeOn? m = w.shapeOn? m := by
  rw [World.shapeOn?, h.node, World.shapeOn?]
  cases w.node? m <;> rfl

theorem Midst.trans (h : Midst w v d) (i : Midst v u e) : Midst w u (d ++ e) where
  node m := by rw [i.node, h.node, map_ends_append]
  registry := by rw [i.registry, h.registry, filter_notMem_append]
  bound := by
    rw [i.bound, h.bound, ← filter_unbound_append]
    simp only [h.shapeOn?]
  listeners := i.listeners.trans h.listeners

theorem Midst.refl (w : World α κ σ) : Midst w w [] := (Torn.refl w).midst

theorem midst_takeGenerated (w : World α κ σ) (s : ShapeId) : Midst w (w.takeGenerated s) [] :=
  ⟨(Midst.refl w).node, (Midst.refl w).registry, (Midst.refl w).bound, rfl⟩

/-- a record of a teardown: the ends it tells of are those in the journal, each in the midst of those before -/
structure Heard (w v : World α κ σ) (ms : List (Moment α κ σ)) : Prop where
  journal : v.journal.toList = w.journal.toList ++ ms.map fun m => .announced m.node
  found : ∀ pre m post, ms = pre ++ m :: post → Midst w m.found (pre.map (·.node))

theorem Heard.nil (w : World α κ σ) : Heard w w [] := ⟨by simp, by simp⟩

/-- the record tells of the dead, in the order of their ends -/
theorem Heard.nodes (h : Heard w v ms) (t : Torn w v d c) : ms.map (·.node) = d := by
  have hends : (ms.map (·.node)).map Entry.announced = d.map Entry.announced := by
    have hj := h.journal.symm.trans t.journal
    rw [List.map_map]
    exact List.append_cancel_left hj
  exact (List.map_injective_iff.2 fun a b hab => Entry.announced.inj hab) hends

theorem Heard.trans (h : Heard w v ms) (t : Torn w v d c) (i : Heard v u ns) : Heard w u (ms ++ ns) where
  journal := by rw [i.journal, h.journal, List.map_append, List.append_assoc]
  found := by
    intro pre m post heq
    rcases List.append_eq_append_iff.1 heq with ⟨l, rfl, he⟩ | ⟨l, rfl, he⟩
    · rw [List.map_append, h.nodes t]
      exact t.midst.trans (i.found l m post he)
    · cases l with
      | nil =>
        have hv := i.found [] m post (by simpa using he.symm)
        rw [List.append_nil] at h
        rw [h.nodes t]
        simpa using t.midst.trans hv
      | cons x l =>
        obtain ⟨rfl, -⟩ := List.cons_eq_cons.1 he
        exact h.found pre m l rfl

/-- the record of a loop of teardowns -/
theorem Heard.foldl {P : World α κ σ → Prop} {g : β → World α κ σ} {f : β → NodeId → β × List (Moment α κ σ)}
    {cs : List NodeId} (one : ∀ b, P (g b) → ∀ n ∈ cs, P (g (f b n).1) ∧
      (∃ d c, Torn (g b) (g (f b n).1) d c) ∧ Heard (g b) (g (f b n).1) (f b n).2)
    (b : β) (hb : P (g b)) {b' : β} (hr : cs.foldl (overhear f) (b, []) = (b', ms)) :
    (∃ d c, Torn (g b) (g b') d c) ∧ Heard (g b) (g b') ms := by
  induction cs generalizing b ms with
  | nil =>
    obtain ⟨rfl, rfl⟩ : b = b' ∧ [] = ms := by simpa using hr
    exact ⟨⟨[], [], .refl _⟩, .nil _⟩
  | cons n cs ih =>
    obtain ⟨hp, ⟨d, c, ht⟩, hn⟩ := one b hb n List.mem_cons_self
    have hfst := foldl_overhear_fst f cs (f b n).1
    rw [List.foldl_cons, overhear, List.nil_append] at hr
    have hsnd := foldl_overhear_snd f cs (f b n).1 (f b n).2
    rw [hr] at hsnd
    rcases hrest : cs.foldl (overhear f) ((f b n).1, []) with ⟨b₁, rest⟩
    obtain rfl : b' = b₁ := by
      have hsame := (hfst (f b n).2).trans (hfst []).symm
      rwa [hr, hrest] at hsame
    obtain ⟨⟨e, k, ht'⟩, hh⟩ := ih (fun b hb m hm => one b hb m (List.mem_cons_of_mem n hm)) (f b n).1 hp hrest
    rw [hrest] at hsnd
    obtain rfl : ms = (f b n).2 ++ rest := hsnd
    exact ⟨⟨d ++ e, c ++ k, ht.trans ht'⟩, hn.trans ht hh⟩

/-- the moment before one node ends -/
theorem heard_bury (u : World α κ σ) (n : NodeId) : Heard u ((u.announce n).bury n) [⟨n, u⟩] where
  journal := by
    rw [bury_eq, announce_eq]
    simp
  found := by
    intro pre m post heq
    obtain ⟨rfl, rfl, rfl⟩ : pre = [] ∧ (⟨n, u⟩ : Moment α κ σ) = m ∧ post = [] := by
      cases pre with
      | nil => simpa using heq
      | cons x pre => simp at heq
    exact .refl u

/-! ## Every moment of a teardown -/

/-- destroying within a bound -/
def DestroyHeard (α κ σ : Type) (depth : Nat) : Prop :=
  ∀ (size effort : Nat) (w : World α κ σ) (n : NodeId), Ready size effort w → effort + (size + 3 - n) ≤ depth →
    Heard w (destroyOverheard depth n w).1.1 (destroyOverheard depth n w).2

/-- cleaning within a bound -/
def CleanHeard (α κ σ : Type) (depth : Nat) : Prop :=
  ∀ (size effort : Nat) (w : World α κ σ) (s : ShapeId), Ready size effort w → effort + 1 ≤ depth →
    Heard w (cleanOverheard depth s w).1 (cleanOverheard depth s w).2

theorem cleanAt_heard {depth size effort : Nat} (ih : CleanHeard α κ σ depth) (h : Ready size effort w)
    (hd : effort + 1 ≤ depth) (n : NodeId) :
    Heard w (cleanAtOverheard depth n w).1 (cleanAtOverheard depth n w).2 := by
  unfold cleanAtOverheard
  cases w.shapeOn? n with
  | none => exact .nil w
  | some s => exact ih size effort w s h hd

theorem destroy_heard_step {depth : Nat} (ihd : DestroyHeard α κ σ depth) (ihc : CleanHeard α κ σ depth) :
    DestroyHeard α κ σ (depth + 1) := by
  intro size effort w n h hd
  by_cases hl : w.isAlive n = true
  swap
  · rw [destroyOverheard, if_neg hl]
    exact .nil w
  obtain ⟨hdestroyed, hcleaned⟩ := killsFrom_within (α := α) (κ := κ) (σ := σ) depth
  obtain ⟨⟨d, c, h₁⟩, hr, hl₁, hroom⟩ := destroy_begins hcleaned h hd hl
  have hn : n ≤ size := h.size_eq ▸ le_size_of_isAlive hl
  have hspare : effort + 1 ≤ depth := by
    have hnext := hroom (n + 1) (Nat.lt_succ_self n)
    have hpos : size + 3 - (size + 1) ≤ size + 3 - (n + 1) := Nat.sub_le_sub_left (Nat.succ_le_succ hn) _
    omega
  have hv := cleanAtOverheard_fst (overheard_within depth).2 n w
  have hbefore := cleanAt_heard ihc h hspare n
  rcases hb : cleanAtOverheard depth n w with ⟨v, before⟩
  rcases hc : childrenOverheard depth n v with ⟨⟨u, faults⟩, below⟩
  rw [hb] at hv hbefore
  obtain rfl : v = cleanAt depth n w := hv
  -- the children are younger
  have hone (p : World α κ σ × List (Fault α)) (hp : Ready size effort p.1) (b : NodeId)
      (hmem : b ∈ (cleanAt depth n w).children n) : Ready size effort (childOverheard depth p b).1.1 ∧
        (∃ d c, Torn p.1 (childOverheard depth p b).1.1 d c) ∧
        Heard p.1 (childOverheard depth p b).1.1 (childOverheard depth p b).2 := by
    have hyoung : n < b := hr.tame.lt_of_successor (mem_successors.2 (Or.inl hmem))
    obtain ⟨d, c, hf⟩ := hdestroyed size effort p.1 b hp (hroom b hyoung)
    have hsame : (childOverheard depth p b).1.1 = (destroyWithin depth b p.1).1 := by
      rw [childOverheard, (overheard_within depth).1]
    rw [hsame]
    refine ⟨hp.kills hf.toKills, ⟨d, c, hf.torn⟩, ?_⟩
    have hh := ihd size effort p.1 b hp (hroom b hyoung)
    rwa [(overheard_within depth).1] at hh
  obtain ⟨⟨e, k, h₂⟩, hbelow⟩ := Heard.foldl (P := Ready size effort) (g := Prod.fst) hone
    (cleanAt depth n w, []) hr hc
  rw [destroyOverheard_alive hl hb hc]
  exact (hbefore.trans h₁.torn hbelow).trans (h₁.torn.trans h₂) (heard_bury u n)

theorem cleanOne_heard {depth size effort : Nat} (ihd : DestroyHeard α κ σ depth) (ihc : CleanHeard α κ σ depth)
    (h : Ready size effort w) (hd : effort + (size + 3) ≤ depth) (s : ShapeId) (n : NodeId) :
    Heard w (cleanOneOverheard depth s w n).1 (cleanOneOverheard depth s w n).2 := by
  by_cases hl : w.isAlive n = true
  swap
  · rw [cleanOneOverheard, if_neg hl]
    exact .nil w
  obtain ⟨-, hcleaned⟩ := killsFrom_within (α := α) (κ := κ) (σ := σ) depth
  obtain ⟨d, c, h₁⟩ := cleanAt_killsFrom hcleaned h (by omega) n
  have hv := cleanAtOverheard_fst (overheard_within depth).2 n w
  have hbefore := cleanAt_heard ihc h (by omega) n
  rcases hb : cleanAtOverheard depth n w with ⟨v, before⟩
  rw [hb] at hv hbefore
  obtain rfl : v = cleanAt depth n w := hv
  have hroom : effort + (size + 3 - n) ≤ depth := (Nat.add_le_add_left (Nat.sub_le _ _) _).trans hd
  have hend := ihd size effort _ n (h.kills h₁.toKills) hroom
  rw [cleanOneOverheard, if_pos hl, hb]
  simp only
  rcases hr : destroyOverheard depth n (cleanAt depth n w) with ⟨⟨u, _ | fault⟩, moments⟩
  · rw [hr] at hend
    exact hbefore.trans h₁.torn hend
  · rw [hr] at hend
    have hheard := hbefore.trans h₁.torn hend
    refine ⟨?_, hheard.found⟩
    have hjournal : (u.warnCleanup s n).journal = u.journal := by
      unfold warnCleanup
      cases u.node? n <;> rfl
    rw [hjournal]
    exact hheard.journal

theorem clean_heard_step {depth : Nat} (ihd : DestroyHeard α κ σ depth) (ihc : CleanHeard α κ σ depth) :
    CleanHeard α κ σ (depth + 1) := by
  intro size effort w s h hd
  cases hg : (w.shape? s).bind (·.generated) with
  | none =>
    rw [cleanOverheard, hg]
    exact .nil w
  | some gs =>
    obtain rfl : w.generatedBy s = gs := by rw [generatedBy, hg]; rfl
    rw [cleanOverheard_some hg]
    rcases hr : (w.generatedBy s).foldl (overhear (cleanOneOverheard depth s)) (w.takeGenerated s, []) with ⟨v, ms⟩
    suffices hheard : Heard (w.takeGenerated s) v ms by
      exact ⟨hheard.journal, fun pre m post heq => (midst_takeGenerated w s).trans (hheard.found pre m post heq)⟩
    by_cases hne : w.generatedBy s = []
    · rw [hne] at hr
      obtain ⟨rfl, rfl⟩ : w.takeGenerated s = v ∧ [] = ms := by simpa using hr
      exact .nil _
    · obtain ⟨hle, hready⟩ := h.takeGenerated hne
      obtain ⟨hdestroyed, hcleaned⟩ := killsFrom_within (α := α) (κ := κ) (σ := σ) depth
      refine (Heard.foldl (P := Ready size (effort - (size + 3))) (g := id) (fun v hv n _ => ?_) _ hready hr).2
      obtain ⟨d, c, hf⟩ := cleanOne_killsFrom hdestroyed hcleaned hv (by omega) s n
      obtain ⟨samed, samec⟩ := overheard_within (α := α) (κ := κ) (σ := σ) depth
      have hh := cleanOne_heard ihd ihc hv (by omega) s n
      rw [← cleanOneOverheard_fst samed samec] at hf
      exact ⟨hv.kills hf.toKills, ⟨d, c, hf.torn⟩, hh⟩

/-- **Every moment.** In a tame world each moment on record is in the midst of the ends before it. -/
theorem heard_within (depth : Nat) : DestroyHeard α κ σ depth ∧ CleanHeard α κ σ depth := by
  induction depth with
  | zero => exact ⟨fun size effort w n _ _ => .nil w, fun size effort w s _ _ => .nil w⟩
  | succ depth ih => exact ⟨destroy_heard_step ih.1 ih.2, clean_heard_step ih.1 ih.2⟩

/-! ## The calls -/

/-- all calls of listeners in the destruction of a node, in order -/
def callsOfDestroy (w : World α κ σ) (n : NodeId) : List (Call α κ σ) :=
  (destroyOverheard w.teardownBound n w).2.flatMap Moment.calls

/-- in the midst `u` of a teardown of `w` a node is still in its place, and all that it led to is dead -/
structure Due (w u : World α κ σ) (n : NodeId) : Prop where
  alive : u.isAlive n = true
  registered : n ∈ u.registry
  attached : u.parentOf n = w.parentOf n ∧ ∀ p, w.parentOf n = some p → n ∈ u.children p
  bare : u.children n = []
  children : ∀ b ∈ w.children n, ¬ u.isAlive b = true
  generated : ∀ b ∈ w.generatedAt n, ¬ u.isAlive b = true

theorem Due.congr {u' : World α κ σ} {n : NodeId} (h : Due w u n) (hn : u'.nodes = u.nodes)
    (hr : u'.registry = u.registry) : Due w u' n := by
  have hnode := node?_congr hn
  have halive (m : NodeId) : u'.isAlive m = u.isAlive m := by rw [isAlive, hnode, isAlive]
  have hchildren (m : NodeId) : u'.children m = u.children m := by rw [World.children, hnode, World.children]
  have hparent : u'.parentOf n = u.parentOf n := by rw [parentOf, hnode, parentOf]
  refine ⟨by rw [halive]; exact h.alive, by rw [hr]; exact h.registered, ⟨hparent.trans h.attached.1, fun p hp => ?_⟩,
    by rw [hchildren]; exact h.bare, fun b hb => ?_, fun b hb => ?_⟩
  · rw [hchildren]
    exact h.attached.2 p hp
  · rw [halive]
    exact h.children b hb
  · rw [halive]
    exact h.generated b hb

theorem Midst.isAlive (h : Midst w u pre) (m : NodeId) : u.isAlive m = true ↔ w.isAlive m = true ∧ m ∉ pre := by
  unfold World.isAlive
  rw [h.node]
  by_cases hm : m ∈ pre <;> cases w.node? m <;> simp [hm]

theorem Midst.children (h : Midst w u pre) (m : NodeId) : u.children m = (w.children m).filter (· ∉ pre) := by
  unfold World.children
  rw [h.node]
  cases w.node? m <;> rfl

theorem Midst.parentOf (h : Midst w u pre) {m : NodeId} (hm : m ∉ pre) : u.parentOf m = w.parentOf m := by
  unfold World.parentOf
  rw [h.node]
  cases w.node? m <;> simp [hm]

/-- right before a node ends in its turn, it is due -/
theorem Midst.due (h : Midst w u pre) (hw : Orderly w) (k : Kills w v d c) {n : NodeId} {post : List NodeId}
    (hd : d = pre ++ n :: post) : Due w u n := by
  have hn : n ∉ pre := by
    have hnodup := k.nodup
    rw [hd] at hnodup
    exact fun hm => (List.nodup_append'.1 hnodup).2.2 hm List.mem_cons_self
  have hl : w.isAlive n = true := k.alive n (by rw [hd]; simp)
  have hgone (b : NodeId) (hb : b ∈ w.successors n) : ¬ u.isAlive b = true := fun hu => by
    obtain ⟨hlb, hpre⟩ := (h.isAlive b).1 hu
    exact hpre (k.first pre n post hd b hb hlb)
  refine ⟨(h.isAlive n).2 ⟨hl, hn⟩, ?_, ⟨h.parentOf hn, fun p hp => ?_⟩, ?_, fun b hb => ?_, fun b hb => ?_⟩
  · rw [h.registry, List.mem_filter, hw.registered]
    exact ⟨hl, by simpa using hn⟩
  · rw [h.children, List.mem_filter, hw.tame.mem_children]
    exact ⟨hp, by simpa using hn⟩
  · rw [h.children, List.filter_eq_nil_iff]
    intro b hb
    have hlb := (hw.tame.parent_alive b n ((hw.tame.mem_children b n).1 hb)).1
    have hb' := k.first pre n post hd b (List.mem_append_left _ hb) hlb
    simpa using hb'
  · exact hgone b (List.mem_append_left _ hb)
  · exact hgone b (List.mem_append_right _ hb)

/-- the call of one listener at a moment -/
def Moment.callTo (m : Moment α κ σ) : Nat → Call α κ σ
  | 0 => ⟨0, m.node, m.found⟩
  | i + 1 => ⟨i + 1, m.node, m.found.announce m.node⟩

/-- at a moment each listener is called once -/
theorem Moment.calls_to (m : Moment α κ σ) {i : Nat} (hi : i ≤ m.found.listeners.length) :
    m.calls.filter (·.listener = i) = [m.callTo i] := by
  cases i with
  | zero => simp [Moment.calls, List.filter_map, Function.comp_def, callTo]
  | succ i =>
    have hone : (List.range m.found.listeners.length).filter (· = i) = [i] := by
      rw [List.filter_eq, List.count_eq_one_of_mem List.nodup_range (List.mem_range.2 hi)]
      rfl
    simp [Moment.calls, List.filter_map, Function.comp_def, hone, callTo]

theorem Moment.callTo_node (m : Moment α κ σ) (i : Nat) : (m.callTo i).node = m.node := by cases i <;> rfl

theorem Moment.calls_of (m : Moment α κ σ) {i : Nat} (hi : i ≤ m.found.listeners.length) :
    (m.calls.filter (·.listener = i)).map (·.node) = [m.node] := by
  rw [m.calls_to hi, List.map_singleton, m.callTo_node]

/-- **One destruction.** In an orderly world each listener hears of each node that dies, once, at the right moment. -/
theorem Orderly.tells (h : Orderly w) (n : NodeId) :
    ∃ dead : List NodeId, dead.Nodup ∧
      (∀ m, m ∈ dead ↔ w.isAlive m = true ∧ ¬ ((destroy n).after w).isAlive m = true) ∧
      (∀ i ≤ w.listeners.length, ((w.callsOfDestroy n).filter (·.listener = i)).map (·.node) = dead) ∧
      (∀ c ∈ w.callsOfDestroy n, c.listener ≤ w.listeners.length ∧ Due w c.found c.node ∧
        (c.listener = 0 → ∀ s, w.shapeOn? c.node = some s → (c.node, s) ∈ c.found.bound)) ∧
      ((destroy n).after w).destroyed = w.destroyed + dead.length := by
  obtain ⟨d, c, hf⟩ := destroy_killsFrom h.tame n
  have hheard : Heard w (destroyWithin w.teardownBound n w).1 (destroyOverheard w.teardownBound n w).2 := by
    have hh := (heard_within w.teardownBound).1 w.nodes.size w.effort w n ⟨h.tame, rfl, le_rfl⟩ (by
      rw [teardownBound_eq]
      exact Nat.add_le_add_left (Nat.sub_le _ _) _)
    rwa [(overheard_within w.teardownBound).1] at hh
  rw [after_destroy]
  have hnodes := hheard.nodes hf.torn
  have hlength (m : Moment α κ σ) (hm : m ∈ (destroyOverheard w.teardownBound n w).2) :
      m.found.listeners.length = w.listeners.length := by
    obtain ⟨pre, post, heq⟩ := List.append_of_mem hm
    rw [(hheard.found pre m post heq).listeners]
  refine ⟨d, hf.nodup, fun m => ?_, fun i hi => ?_, fun c hc => ?_, hf.torn.destroyed⟩
  · rw [hf.torn.isAlive]
    exact ⟨fun hm => ⟨hf.alive m hm, fun hv => hv.2 hm⟩, fun ⟨hm, hv⟩ => not_not.1 fun hd => hv ⟨hm, hd⟩⟩
  · rw [callsOfDestroy, List.filter_flatMap, List.map_flatMap, ← hnodes]
    rw [List.flatMap_congr fun m hm => m.calls_of (hi.trans (hlength m hm).ge)]
    exact List.map_eq_flatMap.symm
  · obtain ⟨m, hm, hcm⟩ := List.mem_flatMap.1 hc
    obtain ⟨pre, post, heq⟩ := List.append_of_mem hm
    have hmidst := hheard.found pre m post heq
    have hd : d = pre.map (·.node) ++ m.node :: post.map (·.node) := by rw [← hnodes, heq]; simp
    have hdue := hmidst.due h hf.toKills hd
    rcases List.mem_cons.1 hcm with rfl | hcm
    · refine ⟨Nat.zero_le _, hdue, fun _ s hs => ?_⟩
      obtain ⟨hl, hpre⟩ := (hmidst.isAlive _).1 hdue.alive
      rw [hmidst.bound, List.mem_filter, h.mem_bound]
      exact ⟨⟨hl, hs⟩, decide_eq_true fun hp => hpre hp.1⟩
    · obtain ⟨i, hi, rfl⟩ := List.mem_map.1 hcm
      refine ⟨?_, hdue.congr (by rw [announce_eq]) (by rw [announce_eq]), fun h0 => absurd h0 (Nat.succ_ne_zero i)⟩
      exact (List.mem_range.1 hi).trans_eq (hlength m hm)

end

end World

open World

section

variable {α κ σ : Type} [Scalar α] [SymbolKind κ]

/-- **Destruction.** In any world reached in order, in the midst of rules or not, the destruction of a node calls each
listener once for each node that dies and for no other, in the order of their ends. The node is alive then,
registered, and below its parent; its children and what its shape had generated are dead. As many more are counted as
destroyed as have died. -/
theorem World.Reached.destroy_tells {w : World α κ σ} (h : Reached World.orderly w) (n : NodeId) :
    (destroyOverheard w.teardownBound n w).1 = destroyWithin w.teardownBound n w ∧
    ∃ dead : List NodeId, dead.Nodup ∧
      (∀ m, m ∈ dead ↔ w.isAlive m = true ∧ ¬ ((destroy n).after w).isAlive m = true) ∧
      (∀ i ≤ w.listeners.length, ((w.callsOfDestroy n).filter (·.listener = i)).map (·.node) = dead) ∧
      (∀ c ∈ w.callsOfDestroy n, c.listener ≤ w.listeners.length ∧ Due w c.found c.node ∧
        (c.listener = 0 → ∀ s, w.shapeOn? c.node = some s → (c.node, s) ∈ c.found.bound)) ∧
      ((destroy n).after w).destroyed = w.destroyed + dead.length :=
  ⟨(overheard_within w.teardownBound).1 n w, h.orderly.tells n⟩

end

/-- the lantern and its lamp hang under the second root and die with the content of the first one; one listener objects -/
theorem destroy_tells_abroad :
    let p : Prog Float (City.Kind Float) Unit Unit :=
      .perform (.listen [fun _ => some .noChoice, fun _ => none]) fun _ => lanternAbroad
    let w := (p.run idle).after (.fresh ⟨fun _ => 0, 0⟩ ())
    (w.callsOfDestroy 1).map (fun c => (c.listener, c.node)) =
        [(0, 5), (1, 5), (2, 5), (0, 4), (1, 4), (2, 4), (0, 3), (1, 3), (2, 3), (0, 1), (1, 1), (2, 1)] ∧
      ∃ dead : List NodeId, dead.Nodup ∧
        (∀ m, m ∈ dead ↔ w.isAlive m = true ∧ ¬ ((destroy 1).after w).isAlive m = true) ∧
        (∀ i ≤ w.listeners.length, ((w.callsOfDestroy 1).filter (·.listener = i)).map (·.node) = dead) ∧
        (∀ c ∈ w.callsOfDestroy 1, c.listener ≤ w.listeners.length ∧ Due w c.found c.node ∧
          (c.listener = 0 → ∀ s, w.shapeOn? c.node = some s → (c.node, s) ∈ c.found.bound)) ∧
        ((destroy 1).after w).destroyed = w.destroyed + dead.length := by
  intro p w
  have heeds : p.HeedsBy World.orderly idle (.fresh ⟨fun _ => 0, 0⟩ ()) :=
    Prog.heedsBy_perform (by decide +kernel) rfl <| Prog.heedsBy_perform (by decide +kernel) rfl <|
      Prog.heedsBy_perform (by decide +kernel) rfl <| Prog.heedsBy_perform (by decide +kernel) rfl <|
        Prog.heedsBy_perform (by decide +kernel) rfl rfl
  have h := (Reached.start (pristine_fresh _ _)).run splits_orderly heeds
  exact ⟨by decide +kernel, (h.destroy_tells 1).2⟩

end SceneGrammar
