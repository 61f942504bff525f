/-
Teardowns where nodes own one another in circles.

A list may hold anything: the node that its shape stands on, one above it, one whose own list leads back. A node stays
alive until all under it is gone, so a teardown can come back to a node that it is still at work on; then the node is
buried in the inner call, and again when the outer one is done.

`TornFrom w v roots ms cleaned` is what is left of `KillsFrom` then: the record `ms` tells of all that is reached from
`roots`, and of nothing else, but not always once, and not always after what a node leads to. What is told of twice lies
on a circle (`TornFrom.again`). The depth of calls is bounded as before, since a list is emptied before it is worked
through (`tornFrom_within`), and a greater bound changes nothing (`steady_within`).
-/
import SceneGrammar.Proofs.Teardown.Overheard

namespace SceneGrammar.World

variable {α κ σ β : Type}

/-- a node on a circle: something that it leads to leads back to it -/
def Circular (w : World α κ σ) (m : NodeId) : Prop := ∃ b ∈ w.successors m, Reach w b m

/-- the nodes that a record tells of, in the order of their ends -/
def endsOf (ms : List (Moment α κ σ)) : List NodeId := ms.map (·.node)

/-- a fault that a listener answered at one of these moments -/
def Objected (ms : List (Moment α κ σ)) (e : Fault α) : Prop := ∃ m ∈ ms, ∃ c ∈ m.calls, c.answer = some e

/-- a teardown of what is reached from `roots`, with its record; a node may end more than once -/
structure TornFrom (w v : World α κ σ) (roots : List NodeId) (ms : List (Moment α κ σ)) (cleaned : List ShapeId) :
    Prop where
  torn : Torn w v (endsOf ms) cleaned
  heard : Heard w v ms
  alive : ∀ m ∈ endsOf ms, w.isAlive m = true
  closed : ∀ a ∈ endsOf ms, ∀ b ∈ w.successors a, w.isAlive b = true → b ∈ endsOf ms
  spent : ∀ s ∈ cleaned, ∀ g ∈ w.generatedBy s, w.isAlive g = true → g ∈ endsOf ms
  hit : ∀ r ∈ roots, w.isAlive r = true → r ∈ endsOf ms
  reached : ∀ m ∈ endsOf ms, ∃ r ∈ roots, Reach w r m
  again : ∀ m, 1 < (endsOf ms).count m → w.Circular m

section

variable {w v u : World α κ σ} {roots roots' r r' : List NodeId} {ms ns : List (Moment α κ σ)} {c k : List ShapeId}

theorem endsOf_append (ms ns : List (Moment α κ σ)) : endsOf (ms ++ ns) = endsOf ms ++ endsOf ns := List.map_append

theorem endsOf_concat (ms : List (Moment α κ σ)) (n : NodeId) (u : World α κ σ) :
    endsOf (ms ++ [⟨n, u⟩]) = endsOf ms ++ [n] := List.map_append

theorem mem_endsOf_concat {n m : NodeId} : m ∈ endsOf (ms ++ [⟨n, u⟩]) ↔ m ∈ endsOf ms ∨ m = n := by
  rw [endsOf_concat, List.mem_append, List.mem_singleton]

theorem Objected.append_left {e : Fault α} (h : Objected ms e) (ns : List (Moment α κ σ)) : Objected (ms ++ ns) e := by
  obtain ⟨m, hm, hc⟩ := h
  exact ⟨m, List.mem_append_left ns hm, hc⟩

theorem Objected.append_right {e : Fault α} (h : Objected ns e) (ms : List (Moment α κ σ)) : Objected (ms ++ ns) e := by
  obtain ⟨m, hm, hc⟩ := h
  exact ⟨m, List.mem_append_right ms hm, hc⟩

theorem Torn.circular_of {d : List NodeId} (t : Torn w v d c) {m : NodeId} (h : v.Circular m) : w.Circular m := by
  obtain ⟨b, hb, hr⟩ := h
  exact ⟨b, t.successor_of hb, t.reach_of hr⟩

theorem TornFrom.closed_reach (h : TornFrom w v roots ms c) {a b : NodeId} (ha : a ∈ endsOf ms) (hr : Reach w a b) :
    b ∈ endsOf ms := by
  induction hr with
  | refl _ => exact ha
  | step _ hs hr ih => exact ih (h.closed _ ha _ hs hr.alive_left)

theorem TornFrom.mem_iff (h : TornFrom w v roots ms c) (m : NodeId) : m ∈ endsOf ms ↔ ∃ r ∈ roots, Reach w r m :=
  ⟨h.reached m, fun ⟨r, hr, hm⟩ => h.closed_reach (h.hit r hr hm.alive_left) hm⟩

theorem TornFrom.refl (w : World α κ σ) {roots : List NodeId} (h : ∀ r ∈ roots, ¬ w.isAlive r = true) :
    TornFrom w w roots [] [] :=
  ⟨Torn.refl w, .nil w, by simp [endsOf], by simp [endsOf], by simp, fun r hr hl => absurd hl (h r hr),
    by simp [endsOf], by simp [endsOf]⟩

theorem TornFrom.trans (h : TornFrom w v r ms c) (i : TornFrom v u r' ns k) :
    TornFrom w u (r ++ r') (ms ++ ns) (c ++ k) where
  torn := by
    rw [endsOf_append]
    exact h.torn.trans i.torn
  heard := h.heard.trans h.torn i.heard
  alive m hm := by
    rw [endsOf_append, List.mem_append] at hm
    exact hm.elim (h.alive m) fun hm => ((h.torn.isAlive m).1 (i.alive m hm)).1
  closed a ha b hb hl := by
    rw [endsOf_append, List.mem_append] at ha ⊢
    by_cases hd : b ∈ endsOf ms
    · exact Or.inl hd
    · have hv : v.isAlive b = true := (h.torn.isAlive b).2 ⟨hl, hd⟩
      exact Or.inr (i.closed a (ha.resolve_left fun ha => hd (h.closed a ha b hb hl)) b
        (h.torn.successor_kept h.spent hb hv) hv)
  spent s hs g hg hl := by
    rw [endsOf_append, List.mem_append]
    by_cases hd : g ∈ endsOf ms
    · exact Or.inl hd
    · have hv : v.isAlive g = true := (h.torn.isAlive g).2 ⟨hl, hd⟩
      have hc : s ∉ c := fun hc => hd (h.spent s hc g hg hl)
      refine Or.inr (i.spent s ((List.mem_append.1 hs).resolve_left hc) g ?_ hv)
      rw [h.torn.generatedBy, if_neg hc]
      exact hg
  hit n hn hl := by
    rw [endsOf_append, List.mem_append]
    by_cases hd : n ∈ endsOf ms
    · exact Or.inl hd
    · rcases List.mem_append.1 hn with hn | hn
      · exact Or.inl (h.hit n hn hl)
      · exact Or.inr (i.hit n hn ((h.torn.isAlive n).2 ⟨hl, hd⟩))
  reached m hm := by
    rw [endsOf_append, List.mem_append] at hm
    rcases hm with hm | hm
    · obtain ⟨n, hn, hr⟩ := h.reached m hm
      exact ⟨n, List.mem_append_left _ hn, hr⟩
    · obtain ⟨n, hn, hr⟩ := i.reached m hm
      exact ⟨n, List.mem_append_right _ hn, h.torn.reach_of hr⟩
  again m hm := by
    rw [endsOf_append, List.count_append] at hm
    by_cases hi : m ∈ endsOf ns
    · -- it was alive at the start of the second part, so it did not end in the first
      have hd : m ∉ endsOf ms := ((h.torn.isAlive m).1 (i.alive m hi)).2
      rw [List.count_eq_zero_of_not_mem hd, Nat.zero_add] at hm
      exact h.torn.circular_of (i.again m hm)
    · rw [List.count_eq_zero_of_not_mem hi] at hm
      exact h.again m hm

/-- the same teardown, told from other nodes that lead to the old ones -/
theorem TornFrom.retold (h : TornFrom w v roots ms c) (hit : ∀ n ∈ roots', w.isAlive n = true → n ∈ endsOf ms)
    (lead : ∀ n ∈ roots, w.isAlive n = true → ∃ m ∈ roots', Reach w m n) : TornFrom w v roots' ms c :=
  { h with
    hit := hit
    reached := by
      intro m hm
      obtain ⟨n, hn, hr⟩ := h.reached m hm
      obtain ⟨b, hb, hbn⟩ := lead n hn hr.alive_left
      exact ⟨b, hb, hbn.trans hr⟩ }

/-- the end of a node after a teardown of what it led to, dead already or not -/
theorem TornFrom.bury (h : TornFrom w u roots ms c) (g : Linked u) (hr : u.registry.Nodup) {n : NodeId}
    (hl : w.isAlive n = true) (under : ∀ r ∈ roots, r ∈ w.successors n)
    (gone : ∀ b ∈ w.successors n, w.isAlive b = true → b ∈ endsOf ms) :
    TornFrom w ((u.announce n).bury n) [n] (ms ++ [⟨n, u⟩]) c where
  torn := by
    have hb := h.torn.trans (Torn.bury hr (fun p hp => (g.mem_children n p).1 hp) g.children_nodup)
    rw [endsOf_concat]
    simpa using hb
  heard := h.heard.trans h.torn (heard_bury u n)
  alive m hm := by
    rcases mem_endsOf_concat.1 hm with hm | rfl
    · exact h.alive m hm
    · exact hl
  closed a ha b hb hlb := by
    refine mem_endsOf_concat.2 (Or.inl ?_)
    rcases mem_endsOf_concat.1 ha with ha | rfl
    · exact h.closed a ha b hb hlb
    · exact gone b hb hlb
  spent s hs g hg hlg := mem_endsOf_concat.2 (Or.inl (h.spent s hs g hg hlg))
  hit r hr _ := mem_endsOf_concat.2 (Or.inr (List.mem_singleton.1 hr))
  reached m hm := by
    refine ⟨n, List.mem_singleton_self n, ?_⟩
    rcases mem_endsOf_concat.1 hm with hm | rfl
    · obtain ⟨r, hr, hrm⟩ := h.reached m hm
      exact .step hl (under r hr) hrm
    · exact .refl hl
  again m hm := by
    rw [endsOf_concat, List.count_append] at hm
    by_cases hold : 1 < (endsOf ms).count m
    · exact h.again m hold
    · -- it ends a second time now, so the teardown below had come back to it
      have hone : [n].count m ≤ 1 := List.count_le_length
      obtain rfl : m = n := List.mem_singleton.1 (List.count_pos_iff.1 (show 0 < [n].count m by omega))
      obtain ⟨r, hr, hrm⟩ := h.reached m (List.count_pos_iff.1 (by omega))
      exact ⟨r, under r hr, hrm⟩

/-- a warning about a teardown changes nothing else -/
theorem TornFrom.warnCleanup (h : TornFrom w v roots ms c) (s : ShapeId) (n : NodeId) :
    TornFrom w (v.warnCleanup s n) roots ms c := by
  have ht := h.torn
  have hsur := (surroundings_warnCleanup v s n).trans ht.surroundings
  unfold World.warnCleanup at hsur ⊢
  cases hx : v.node? n with
  | none => exact h
  | some x =>
    rw [hx] at hsur
    exact { h with
      torn := ⟨ht.1, ht.2, ht.3, ht.4, ht.5, ht.6, ht.7, ht.8, ht.9, hsur⟩
      heard := ⟨h.heard.journal, h.heard.found⟩ }

/-- the end of what was on a list, told from the world in which it was still on it -/
theorem TornFrom.markCleared {s : ShapeId} (h : TornFrom (w.takeGenerated s) v (w.generatedBy s) ms c) :
    TornFrom w (v.markCleared s) (w.generatedBy s) ms (s :: c) where
  torn := Torn.takeGenerated_markCleared h.torn
  heard := ⟨h.heard.journal, fun pre m post heq => (midst_takeGenerated w s).trans (h.heard.found pre m post heq)⟩
  alive := h.alive
  closed a ha b hb hl := by
    rcases mem_successors.1 hb with hc | ⟨t, ht, hg⟩
    · exact h.closed a ha b (successors_takeGenerated.2 (Or.inl hc)) hl
    · by_cases hts : t = s
      · exact h.hit b (hts ▸ hg) hl
      · exact h.closed a ha b (successors_takeGenerated.2 (Or.inr ⟨t, ht, hts, hg⟩)) hl
  spent t ht g hg hl := by
    by_cases hts : t = s
    · exact h.hit g (hts ▸ hg) hl
    · refine h.spent t ((List.mem_cons.1 ht).resolve_left hts) g ?_ hl
      rw [generatedBy_takeGenerated, if_neg hts]
      exact hg
  hit := h.hit
  reached m hm := by
    obtain ⟨r, hr, hrm⟩ := h.reached m hm
    exact ⟨r, hr, reach_of_takeGenerated hrm⟩
  again m hm := by
    obtain ⟨b, hb, hr⟩ := h.again m hm
    refine ⟨b, ?_, reach_of_takeGenerated hr⟩
    rcases successors_takeGenerated.1 hb with hc | ⟨t, ht, -, hg⟩
    · exact mem_successors.2 (Or.inl hc)
    · exact mem_successors.2 (Or.inr ⟨t, ht, hg⟩)

end

/-! ## Loops with a record -/

section

variable {P : World α κ σ → Prop} {g : β → World α κ σ} {f f' : β → NodeId → β × List (Moment α κ σ)}
  {ns : List NodeId}

/-- what a loop over nodes tears down, and what else it keeps right on the way -/
theorem TornFrom.foldl {Q : β → List (Moment α κ σ) → Prop}
    (keep : ∀ w v roots ms c, P w → TornFrom w v roots ms c → P v)
    (one : ∀ b, P (g b) → ∀ n ∈ ns, (∃ c, TornFrom (g b) (g (f b n).1) [n] (f b n).2 c) ∧
      ∀ ms, Q b ms → Q (f b n).1 (ms ++ (f b n).2))
    (b : β) (hb : P (g b)) :
    (∃ c, TornFrom (g b) (g (ns.foldl (overhear f) (b, [])).1) ns (ns.foldl (overhear f) (b, [])).2 c) ∧
      ∀ ms, Q b ms → Q (ns.foldl (overhear f) (b, [])).1 (ms ++ (ns.foldl (overhear f) (b, [])).2) := by
  induction ns generalizing b with
  | nil => exact ⟨⟨[], .refl _ (by simp)⟩, by simp⟩
  | cons n ns ih =>
    obtain ⟨⟨c, hn⟩, hQ⟩ := one b hb n List.mem_cons_self
    obtain ⟨⟨k, hrest⟩, hQrest⟩ := ih (fun b hb m hm => one b hb m (List.mem_cons_of_mem n hm)) (f b n).1
      (keep _ _ _ _ _ hb hn)
    rw [List.foldl_cons, overhear, List.nil_append, foldl_overhear_snd, foldl_overhear_fst f ns _ (f b n).2,
      ← foldl_overhear_fst f ns _ []]
    refine ⟨⟨c ++ k, hn.trans hrest⟩, fun ms hms => ?_⟩
    rw [← List.append_assoc]
    exact hQrest _ (hQ ms hms)

/-- two loops that take the same turns -/
theorem foldl_overhear_congr (keep : ∀ b, P (g b) → ∀ n ∈ ns, P (g (f b n).1))
    (one : ∀ b, P (g b) → ∀ n ∈ ns, f' b n = f b n) (b : β) (hb : P (g b)) (ms : List (Moment α κ σ)) :
    ns.foldl (overhear f') (b, ms) = ns.foldl (overhear f) (b, ms) := by
  induction ns generalizing b ms with
  | nil => rfl
  | cons n ns ih =>
    rw [List.foldl_cons, List.foldl_cons, overhear, overhear, one b hb n List.mem_cons_self]
    exact ih (fun b hb m hm => keep b hb m (List.mem_cons_of_mem n hm))
      (fun b hb m hm => one b hb m (List.mem_cons_of_mem n hm)) _ (keep b hb n List.mem_cons_self) _

end

/-! ## How deep calls can nest -/

/-- what a teardown needs of the world it starts in: links, `size` nodes, and at most so much effort left -/
structure Fit (size effort : Nat) (w : World α κ σ) : Prop where
  linked : Linked w
  registry_nodup : w.registry.Nodup
  size_eq : w.nodes.size = size
  effort_le : w.effort ≤ effort

section

variable {w v : World α κ σ} {roots : List NodeId} {ms : List (Moment α κ σ)} {c : List ShapeId} {size effort depth : Nat}

theorem TornFrom.linked (k : TornFrom w v roots ms c) (h : Linked w) : Linked v :=
  k.torn.linked h fun p hp n hn =>
    k.closed p hp n (mem_successors.2 (Or.inl hn)) (h.parent_alive n p ((h.mem_children n p).1 hn)).1

theorem Fit.tornFrom (h : Fit size effort w) (k : TornFrom w v roots ms c) : Fit size effort v where
  linked := k.linked h.linked
  registry_nodup := by
    rw [k.torn.registry]
    exact h.registry_nodup.filter _
  size_eq := k.torn.sizes.1.trans h.size_eq
  effort_le := k.torn.effort_le.trans h.effort_le

/-- the emptied list pays for the calls made from it -/
theorem Fit.takeGenerated (h : Fit size effort w) {s : ShapeId} (hs : w.generatedBy s ≠ []) :
    size + 3 ≤ effort ∧ Fit size (effort - (size + 3)) (w.takeGenerated s) := by
  have heff := effort_takeGenerated hs
  rw [h.size_eq] at heff
  have hw := h.effort_le
  exact ⟨by omega, ⟨h.linked.mem_children, h.linked.children_nodup, h.linked.parent_alive⟩, h.registry_nodup, h.size_eq,
    by omega⟩

/-- destroying within a bound -/
def DestroyTornFrom (α κ σ : Type) (depth : Nat) : Prop :=
  ∀ (size effort : Nat) (w : World α κ σ) (n : NodeId), Fit size effort w → n ≤ size →
    effort + (size + 3 - n) ≤ depth →
    (∃ c, TornFrom w (destroyOverheard depth n w).1.1 [n] (destroyOverheard depth n w).2 c) ∧
      ∀ e ∈ (destroyOverheard depth n w).1.2, Objected (destroyOverheard depth n w).2 e

/-- cleaning within a bound -/
def CleanTornFrom (α κ σ : Type) (depth : Nat) : Prop :=
  ∀ (size effort : Nat) (w : World α κ σ) (s : ShapeId), Fit size effort w → effort + 1 ≤ depth →
    ∃ c, TornFrom w (cleanOverheard depth s w).1 (w.generatedBy s) (cleanOverheard depth s w).2 c

/-- room for a call at a node is room for calls below it and along its list -/
theorem room_below {n : NodeId} (hn : n ≤ size) (hd : effort + (size + 3 - n) ≤ depth + 1) :
    effort + 1 ≤ depth ∧ ∀ b, n < b → effort + (size + 3 - b) ≤ depth := by
  have hpos : size + 3 - size ≤ size + 3 - n := Nat.sub_le_sub_left hn _
  refine ⟨by omega, fun b hb => ?_⟩
  have hstep : size + 3 - b + 1 ≤ size + 3 - n :=
    Nat.sub_lt_sub_left (Nat.lt_of_le_of_lt hn (Nat.lt_add_of_pos_right (by decide))) hb
  omega

theorem cleanAt_tornFrom (ih : CleanTornFrom α κ σ depth) (h : Fit size effort w) (hd : effort + 1 ≤ depth) (n : NodeId) :
    ∃ c, TornFrom w (cleanAtOverheard depth n w).1 (w.generatedAt n) (cleanAtOverheard depth n w).2 c := by
  rw [generatedAt_eq, cleanAtOverheard]
  cases w.shapeOn? n with
  | none => exact ⟨[], .refl w (by simp)⟩
  | some s => exact ih size effort w s h hd

theorem Linked.lt_of_child (h : Linked w) {n b : NodeId} (hb : b ∈ w.children n) :
    n < b ∧ w.isAlive b = true :=
  have hp := h.parent_alive b n ((h.mem_children b n).1 hb)
  ⟨hp.2.2, hp.1⟩

/-- the loop over the children of a node; all faults that it collects are objections -/
theorem children_raze (ih : DestroyTornFrom α κ σ depth) (h : Fit size effort w) {n : NodeId}
    (hroom : ∀ b, n < b → effort + (size + 3 - b) ≤ depth) :
    (∃ c, TornFrom w (childrenOverheard depth n w).1.1 (w.children n) (childrenOverheard depth n w).2 c) ∧
      ∀ e ∈ (childrenOverheard depth n w).1.2, Objected (childrenOverheard depth n w).2 e := by
  have hone (p : World α κ σ × List (Fault α)) (hp : Fit size effort p.1) (b : NodeId) (hb : b ∈ w.children n) :
      (∃ c, TornFrom p.1 (childOverheard depth p b).1.1 [b] (childOverheard depth p b).2 c) ∧
        ∀ ms, (∀ e ∈ p.2, Objected ms e) →
          ∀ e ∈ (childOverheard depth p b).1.2, Objected (ms ++ (childOverheard depth p b).2) e := by
    obtain ⟨hlt, hl⟩ := h.linked.lt_of_child hb
    obtain ⟨htornFrom, hfault⟩ := ih size effort p.1 b hp (h.size_eq ▸ le_size_of_isAlive hl) (hroom b hlt)
    refine ⟨htornFrom, fun ms hms e he => ?_⟩
    rcases List.mem_append.1 he with he | he
    · exact (hms e he).append_left _
    · exact (hfault e (Option.mem_toList.1 he)).append_right _
  obtain ⟨htornFrom, hfaults⟩ := TornFrom.foldl (P := Fit size effort) (g := Prod.fst)
    (Q := fun p ms => ∀ e ∈ p.2, Objected ms e) (fun _ _ _ _ _ hw hk => hw.tornFrom hk) hone (w, []) h
  exact ⟨htornFrom, hfaults [] (by simp)⟩

/-- the destruction of a living node: a teardown of all that it leads to, then its own end -/
theorem destroy_parts (ihd : DestroyTornFrom α κ σ depth) (ihc : CleanTornFrom α κ σ depth) (h : Fit size effort w)
    {n : NodeId} (hn : n ≤ size) (hd : effort + (size + 3 - n) ≤ depth + 1) (hl : w.isAlive n = true) :
    ∃ u faults ms roots c, destroyOverheard (depth + 1) n w = (((u.announce n).bury n,
        (faults ++ (Moment.calls ⟨n, u⟩).filterMap Call.answer).head?), ms ++ [⟨n, u⟩]) ∧
      Fit size effort u ∧ TornFrom w u roots ms c ∧ (∀ r ∈ roots, r ∈ w.successors n) ∧
      (∀ b ∈ w.successors n, w.isAlive b = true → b ∈ endsOf ms) ∧ ∀ e ∈ faults, Objected ms e := by
  obtain ⟨hspare, hroom⟩ := room_below hn hd
  obtain ⟨d, h₁⟩ := cleanAt_tornFrom ihc h hspare n
  obtain ⟨⟨k, h₂⟩, hfaults⟩ := children_raze ihd (h.tornFrom h₁) hroom
  rcases hb : cleanAtOverheard depth n w with ⟨v, before⟩
  rw [hb] at h₁ h₂ hfaults
  rcases hc : childrenOverheard depth n v with ⟨⟨u, faults⟩, below⟩
  rw [hc] at h₂ hfaults
  refine ⟨u, faults, before ++ below, _, _, destroyOverheard_alive hl hb hc, (h.tornFrom h₁).tornFrom h₂, h₁.trans h₂,
    fun r hr => ?_, fun b hb' hlb => ?_, fun e he => (hfaults e he).append_right before⟩
  · rcases List.mem_append.1 hr with hr | hr
    · exact List.mem_append_right _ hr
    · rw [h₁.torn.children] at hr
      exact List.mem_append_left _ (List.mem_filter.1 hr).1
  · rw [endsOf_append, List.mem_append]
    by_cases hbefore : b ∈ endsOf before
    · exact Or.inl hbefore
    rcases List.mem_append.1 hb' with hchild | hgen
    · refine Or.inr (h₂.hit b ?_ ((h₁.torn.isAlive b).2 ⟨hlb, hbefore⟩))
      rw [h₁.torn.children, List.mem_filter]
      exact ⟨hchild, by simpa using hbefore⟩
    · exact absurd (h₁.hit b hgen hlb) hbefore

theorem destroy_raze_step (ihd : DestroyTornFrom α κ σ depth) (ihc : CleanTornFrom α κ σ depth) :
    DestroyTornFrom α κ σ (depth + 1) := by
  intro size effort w n h hn hd
  by_cases hl : w.isAlive n = true
  swap
  · rw [destroyOverheard, if_neg hl]
    exact ⟨⟨[], .refl w (by simpa using hl)⟩, by simp⟩
  obtain ⟨u, faults, ms, roots, c, heq, hfit, htornFrom, hunder, hgone, hfaults⟩ := destroy_parts ihd ihc h hn hd hl
  rw [heq]
  refine ⟨⟨c, htornFrom.bury hfit.linked hfit.registry_nodup hl hunder hgone⟩, fun e he => ?_⟩
  rcases List.mem_append.1 (List.mem_of_mem_head? he) with he | he
  · exact (hfaults e he).append_left _
  · obtain ⟨call, hcall, hanswer⟩ := List.mem_filterMap.1 he
    exact ⟨⟨n, u⟩, by simp, call, hcall, hanswer⟩

/-- a node on a list goes with all it leads to -/
theorem cleanOne_tornFrom (ihd : DestroyTornFrom α κ σ depth) (ihc : CleanTornFrom α κ σ depth) (h : Fit size effort w)
    (hd : effort + (size + 3) ≤ depth) (s : ShapeId) (n : NodeId) :
    ∃ c, TornFrom w (cleanOneOverheard depth s w n).1 [n] (cleanOneOverheard depth s w n).2 c := by
  by_cases hl : w.isAlive n = true
  swap
  · rw [cleanOneOverheard, if_neg hl]
    exact ⟨[], .refl w (by simpa using hl)⟩
  obtain ⟨d, h₁⟩ := cleanAt_tornFrom ihc h (by omega) n
  obtain ⟨⟨k, h₂⟩, -⟩ := ihd size effort _ n (h.tornFrom h₁) (h.size_eq ▸ le_size_of_isAlive hl)
    ((Nat.add_le_add_left (Nat.sub_le _ _) _).trans hd)
  rw [cleanOneOverheard, if_pos hl]
  rcases hb : cleanAtOverheard depth n w with ⟨v, before⟩
  rw [hb] at h₁ h₂
  have hboth := (h₁.trans h₂).retold (?_ : ∀ m ∈ [n], w.isAlive m = true → m ∈ endsOf _) ?_
  · simp only
    rcases hr : destroyOverheard depth n v with ⟨⟨u, _ | fault⟩, moments⟩
    · rw [hr] at hboth
      exact ⟨_, hboth⟩
    · rw [hr] at hboth
      exact ⟨_, hboth.warnCleanup s n⟩
  · intro m hm _
    obtain rfl := List.mem_singleton.1 hm
    rw [endsOf_append, List.mem_append]
    by_cases hbefore : m ∈ endsOf before
    · exact Or.inl hbefore
    · exact Or.inr (h₂.hit m (List.mem_singleton_self m) ((h₁.torn.isAlive m).2 ⟨hl, hbefore⟩))
  · intro m hm hlm
    refine ⟨n, List.mem_singleton_self n, ?_⟩
    rcases List.mem_append.1 hm with hm | hm
    · exact .step hl (List.mem_append_right _ hm) (.refl hlm)
    · obtain rfl := List.mem_singleton.1 hm
      exact .refl hlm

theorem clean_raze_step (ihd : DestroyTornFrom α κ σ depth) (ihc : CleanTornFrom α κ σ depth) :
    CleanTornFrom α κ σ (depth + 1) := by
  intro size effort w s h hd
  cases hg : (w.shape? s).bind (·.generated) with
  | none =>
    have hgs : w.generatedBy s = [] := by simp [generatedBy, hg]
    rw [cleanOverheard, hg]
    exact ⟨[], .refl w (by simp [hgs])⟩
  | some gs =>
    obtain rfl : w.generatedBy s = gs := by rw [generatedBy, hg]; rfl
    rw [cleanOverheard_some hg]
    suffices hl : ∃ c, TornFrom (w.takeGenerated s)
        ((w.generatedBy s).foldl (overhear (cleanOneOverheard depth s)) (w.takeGenerated s, [])).1 (w.generatedBy s)
        ((w.generatedBy s).foldl (overhear (cleanOneOverheard depth s)) (w.takeGenerated s, [])).2 c by
      obtain ⟨c, hl⟩ := hl
      exact ⟨s :: c, hl.markCleared⟩
    by_cases hne : w.generatedBy s = []
    · rw [hne]
      exact ⟨[], .refl _ (by simp)⟩
    · obtain ⟨hpaid, hfit⟩ := h.takeGenerated hne
      exact (TornFrom.foldl (P := Fit size (effort - (size + 3))) (g := id) (Q := fun _ _ => True)
        (fun _ _ _ _ _ hv hk => hv.tornFrom hk)
        (fun v hv n _ => ⟨cleanOne_tornFrom ihd ihc hv (by omega) s n, fun _ _ => trivial⟩) _ hfit).1

/-- **Every teardown.** Where links are right, a teardown ends all that it reaches and tells of it, circles or not. -/
theorem tornFrom_within (depth : Nat) : DestroyTornFrom α κ σ depth ∧ CleanTornFrom α κ σ depth := by
  induction depth with
  | zero =>
    refine ⟨fun size effort w n _ hn hd => ?_, fun size effort w s _ hd => by omega⟩
    have hpos : size + 3 - size ≤ size + 3 - n := Nat.sub_le_sub_left hn _
    omega
  | succ depth ih => exact ⟨destroy_raze_step ih.1 ih.2, clean_raze_step ih.1 ih.2⟩

/-! ## No call is cut short -/

/-- destroying with more depth is the same -/
def DestroySteady (α κ σ : Type) (depth : Nat) : Prop :=
  ∀ (size effort more : Nat) (w : World α κ σ) (n : NodeId), Fit size effort w → n ≤ size →
    effort + (size + 3 - n) ≤ depth → effort + (size + 3 - n) ≤ more →
    destroyOverheard more n w = destroyOverheard depth n w

/-- cleaning with more depth is the same -/
def CleanSteady (α κ σ : Type) (depth : Nat) : Prop :=
  ∀ (size effort more : Nat) (w : World α κ σ) (s : ShapeId), Fit size effort w → effort + 1 ≤ depth →
    effort + 1 ≤ more → cleanOverheard more s w = cleanOverheard depth s w

variable {more : Nat}

theorem cleanAt_steady (ih : CleanSteady α κ σ depth) (h : Fit size effort w) (hd : effort + 1 ≤ depth)
    (hm : effort + 1 ≤ more) (n : NodeId) : cleanAtOverheard more n w = cleanAtOverheard depth n w := by
  rw [cleanAtOverheard, cleanAtOverheard]
  cases w.shapeOn? n with
  | none => rfl
  | some s => exact ih size effort more w s h hd hm

theorem children_steady (ih : DestroySteady α κ σ depth) (h : Fit size effort w) {n : NodeId}
    (hd : ∀ b, n < b → effort + (size + 3 - b) ≤ depth) (hm : ∀ b, n < b → effort + (size + 3 - b) ≤ more) :
    childrenOverheard more n w = childrenOverheard depth n w := by
  have hin (b : NodeId) (hb : b ∈ w.children n) : n < b ∧ b ≤ size :=
    (h.linked.lt_of_child hb).imp_right fun hl => h.size_eq ▸ le_size_of_isAlive hl
  refine foldl_overhear_congr (P := Fit size effort) (g := Prod.fst) (fun p hp b hb => ?_) (fun p hp b hb => ?_) _ h _
  · obtain ⟨⟨c, hc⟩, -⟩ := (tornFrom_within depth).1 size effort p.1 b hp (hin b hb).2 (hd b (hin b hb).1)
    exact hp.tornFrom hc
  · rw [childOverheard, childOverheard,
      ih size effort more p.1 b hp (hin b hb).2 (hd b (hin b hb).1) (hm b (hin b hb).1)]

theorem destroy_steady_step (ihd : DestroySteady α κ σ depth) (ihc : CleanSteady α κ σ depth) :
    DestroySteady α κ σ (depth + 1) := by
  intro size effort more w n h hn hd hm
  have hpos : size + 3 - size ≤ size + 3 - n := Nat.sub_le_sub_left hn _
  obtain ⟨more, rfl⟩ : ∃ m, more = m + 1 := ⟨more - 1, by omega⟩
  by_cases hl : w.isAlive n = true
  swap
  · rw [destroyOverheard, destroyOverheard, if_neg hl, if_neg hl]
  obtain ⟨hspare, hroom⟩ := room_below hn hd
  obtain ⟨hspare', hroom'⟩ := room_below hn hm
  obtain ⟨d, h₁⟩ := cleanAt_tornFrom (tornFrom_within depth).2 h hspare n
  rcases hb : cleanAtOverheard depth n w with ⟨v, before⟩
  rw [hb] at h₁
  rcases hc : childrenOverheard depth n v with ⟨⟨u, faults⟩, below⟩
  rw [destroyOverheard_alive hl hb hc, destroyOverheard_alive hl ((cleanAt_steady ihc h hspare hspare' n).trans hb)
    ((children_steady ihd (h.tornFrom h₁) hroom hroom').trans hc)]

theorem cleanOne_steady (ihd : DestroySteady α κ σ depth) (ihc : CleanSteady α κ σ depth) (h : Fit size effort w)
    (hd : effort + (size + 3) ≤ depth) (hm : effort + (size + 3) ≤ more) (s : ShapeId) (n : NodeId) :
    cleanOneOverheard more s w n = cleanOneOverheard depth s w n := by
  by_cases hl : w.isAlive n = true
  swap
  · rw [cleanOneOverheard, cleanOneOverheard, if_neg hl, if_neg hl]
  obtain ⟨d, h₁⟩ := cleanAt_tornFrom (tornFrom_within depth).2 h (by omega) n
  have hdestroy := ihd size effort more _ n (h.tornFrom h₁) (h.size_eq ▸ le_size_of_isAlive hl)
    ((Nat.add_le_add_left (Nat.sub_le _ _) _).trans hd) ((Nat.add_le_add_left (Nat.sub_le _ _) _).trans hm)
  rw [cleanOneOverheard, cleanOneOverheard, if_pos hl, if_pos hl, cleanAt_steady ihc h (by omega) (by omega) n]
  simp only [hdestroy]

theorem clean_steady_step (ihd : DestroySteady α κ σ depth) (ihc : CleanSteady α κ σ depth) :
    CleanSteady α κ σ (depth + 1) := by
  intro size effort more w s h hd hm
  obtain ⟨more, rfl⟩ : ∃ m, more = m + 1 := ⟨more - 1, by omega⟩
  cases hg : (w.shape? s).bind (·.generated) with
  | none => rw [cleanOverheard, cleanOverheard, hg]
  | some gs =>
    obtain rfl : w.generatedBy s = gs := by rw [generatedBy, hg]; rfl
    rw [cleanOverheard_some hg, cleanOverheard_some hg]
    by_cases hne : w.generatedBy s = []
    · rw [hne]
      rfl
    · obtain ⟨hpaid, hfit⟩ := h.takeGenerated hne
      have hsame : (w.generatedBy s).foldl (overhear (cleanOneOverheard more s)) (w.takeGenerated s, []) =
          (w.generatedBy s).foldl (overhear (cleanOneOverheard depth s)) (w.takeGenerated s, []) := by
        refine foldl_overhear_congr (P := Fit size (effort - (size + 3))) (g := id) (fun v hv n _ => ?_) (fun v hv n _ => ?_)
          _ hfit []
        · obtain ⟨c, hc⟩ := cleanOne_tornFrom (tornFrom_within depth).1 (tornFrom_within depth).2 hv (by omega) s n
          exact hv.tornFrom hc
        · exact cleanOne_steady ihd ihc hv (by omega) (by omega) s n
      rw [hsame]

/-- **The bound.** A teardown does not depend on its bound once that covers the calls before it. -/
theorem steady_within (depth : Nat) : DestroySteady α κ σ depth ∧ CleanSteady α κ σ depth := by
  induction depth with
  | zero =>
    refine ⟨fun size effort more w n _ hn hd _ => ?_, fun size effort more w s _ hd _ => by omega⟩
    have hpos : size + 3 - size ≤ size + 3 - n := Nat.sub_le_sub_left hn _
    omega
  | succ depth ih => exact ⟨destroy_steady_step ih.1 ih.2, clean_steady_step ih.1 ih.2⟩

end

end SceneGrammar.World
