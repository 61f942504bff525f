/-
No generated content leaks.

The journal says which shape has made which nodes (`makings`). `Creator w m p`: the node `m` was made by the shape on
`p`, as a symbol, a terminal or a part of one; `Offspring w p m`: it was made by that shape or by one that it has made.
`Owned` is the invariant: what a shape has made is on its list as long as it lives, and the shape lives as long as that
does (`Step.owned`).

- `Reachable.no_leak`: in every reachable world a living node that was made leads up, creator by creator, through living
  nodes to a living start symbol; and once a shape's content is deleted, or its node destroyed, no offspring is alive.
-/
import SceneGrammar.Binary64
import SceneGrammar.City
import SceneGrammar.Proofs.Reachable

namespace SceneGrammar.World

variable {α κ σ : Type}

/-- the shape on `p` has made the node `m` -/
def Creator (w : World α κ σ) (m p : NodeId) : Prop :=
  ∃ s first count, (s, first, count) ∈ w.makings ∧ w.homeOf s = some p ∧ first ≤ m ∧ m < first + count

/-- the node `m` was made by the shape on `p`, or by one that it has made, and so on -/
def Offspring (w : World α κ σ) (p m : NodeId) : Prop := Relation.TransGen w.Creator m p

/-- a node that carries a start symbol -/
def IsStart (w : World α κ σ) (n : NodeId) : Prop := ∃ s, w.shapeOn? n = some s ∧ w.rootKeyAt s = some n

/-! ## The invariant -/

/-- what holds of an entry on the making of nodes -/
structure Entered (w : World α κ σ) (s : ShapeId) (first : NodeId) (count : Nat) : Prop where
  younger : ∃ p, w.homeOf s = some p ∧ p < first
  known : 0 < count ∧ first + count ≤ w.nextId
  listed : w.isAlive first = true → w.shapeAlive s = true ∧ first ∈ w.generatedBy s
  inside : ∀ m, first < m → m < first + count → w.isAlive m = true → ∃ p, w.parentOf m = some p ∧ first ≤ p

/-- all that was made is owned, and a symbol was either made or is a start symbol -/
structure Owned (w : World α κ σ) : Prop where
  entered : ∀ s first count, (s, first, count) ∈ w.makings → Entered w s first count
  started : ∀ n s, w.shapeOn? n = some s → w.rootKeyAt s = some n ∨ ∃ p, w.Creator n p
  unmade : ∀ n s p, w.shapeOn? n = some s → w.rootKeyAt s = some n → ¬ w.Creator n p

theorem Pristine.owned {w : World α κ σ} (h : Pristine w) : Owned w where
  entered s first count hm := by simp [makings, h.journal] at hm
  unmade := by
    rintro n s p - - ⟨t, f, k, hm, -⟩
    simp [makings, h.journal] at hm
  started n s hs := by
    have hn := le_size_of_shapeOn? hs
    obtain ⟨x, hx, -⟩ := Option.bind_eq_some_iff.1 hs
    have hsize : w.nodes.size = 0 := by rw [h.nodes]; rfl
    exact absurd (le_size_of_node? hx).1 (not_lt.2 (hn.trans_eq hsize))

section

variable {w v : World α κ σ} {s : ShapeId} {first : NodeId} {count : Nat}

theorem Entered.sameScene (h : Entered w s first count) (e : SameScene w v)
    (lists : ∀ t g, g ∈ w.generatedBy t → g ∈ v.generatedBy t) : Entered v s first count where
  younger := by rw [e.home]; exact h.younger
  known := by rw [nextId, e.nodes]; exact h.known
  listed hl := by
    rw [e.isAlive] at hl
    obtain ⟨hs, hg⟩ := h.listed hl
    refine ⟨?_, lists s first hg⟩
    obtain ⟨n, hn, hln⟩ := shapeAlive_iff.1 hs
    exact shapeAlive_iff.2 ⟨n, (e.home s).trans hn, (e.isAlive n).trans hln⟩
  inside m hlt hle hl := by
    rw [e.parentOf]
    exact h.inside m hlt hle (e.isAlive m ▸ hl)

theorem Entered.adds (h : Entered w s first count) {x : Node α} (a : Adds w v x)
    (home : ∀ n, w.homeOf s = some n → v.homeOf s = some n)
    (lists : ∀ g, g ∈ w.generatedBy s → g ∈ v.generatedBy s) : Entered v s first count := by
  have hold (m : NodeId) (hm : m < first + count) : m ≠ w.nextId := (hm.trans_le h.known.2).ne
  obtain ⟨p, hp, hlt⟩ := h.younger
  refine ⟨⟨p, home p hp, hlt⟩, ⟨h.known.1, ?_⟩, fun hl => ?_, fun m hlt hle hl => ?_⟩
  · rw [nextId, a.size]
    exact h.known.2.trans (Nat.le_succ _)
  · have hfirst := hold first (Nat.lt_add_of_pos_right h.known.1)
    obtain ⟨hs, hg⟩ := h.listed (((a.isAlive first).1 hl).resolve_left hfirst)
    obtain ⟨n, hn, hln⟩ := shapeAlive_iff.1 hs
    exact ⟨shapeAlive_iff.2 ⟨n, home n hn, (a.isAlive n).2 (Or.inr hln)⟩, lists first hg⟩
  · rw [a.parentOf, if_neg (hold m hle)]
    exact h.inside m hlt hle (((a.isAlive m).1 hl).resolve_left (hold m hle))

theorem Entered.kills (h : Entered w s first count) (hs : Sound w) {d : List NodeId} {c : List ShapeId}
    (k : Kills w v d c) : Entered v s first count where
  younger := by rw [k.torn.homeOf]; exact h.younger
  known := by rw [nextId, k.torn.sizes.1]; exact h.known
  listed hl := by
    obtain ⟨hlw, hd⟩ := (k.torn.isAlive first).1 hl
    obtain ⟨hsw, hg⟩ := h.listed hlw
    obtain ⟨n, hn, hln⟩ := shapeAlive_iff.1 hsw
    refine ⟨shapeAlive_iff.2 ⟨n, (k.torn.homeOf s).trans hn, (k.torn.isAlive n).2 ⟨hln, fun hnd => hd ?_⟩⟩, ?_⟩
    · exact k.closed hnd (mem_successors.2 (Or.inr ⟨s, hs.on_home s n hn, hg⟩)) hlw
    · rw [k.torn.generatedBy, if_neg fun hc => hd (k.spent s hc first hg hlw)]
      exact hg
  inside m hlt hle hl := by
    obtain ⟨hlw, hd⟩ := (k.torn.isAlive m).1 hl
    rw [k.torn.parentOf, if_neg hd]
    exact h.inside m hlt hle hlw

theorem Creator.mono (mk : ∀ x ∈ w.makings, x ∈ v.makings) (home : ∀ s n, w.homeOf s = some n → v.homeOf s = some n)
    {m p : NodeId} (h : w.Creator m p) : v.Creator m p := by
  obtain ⟨s, f, k, hm, hp, hle, hlt⟩ := h
  exact ⟨s, f, k, mk _ hm, home s p hp, hle, hlt⟩

/-- where nothing new was made, nobody has a new creator -/
theorem Creator.back (entered : ∀ s f k, (s, f, k) ∈ w.makings → Entered w s f k) (mk : v.makings = w.makings)
    (home : ∀ s n, w.homeOf s = some n → v.homeOf s = some n) {m p : NodeId} (h : v.Creator m p) :
    w.Creator m p := by
  obtain ⟨s, f, k, hm, hp, hle, hlt⟩ := h
  rw [mk] at hm
  obtain ⟨q, hq, -⟩ := (entered s f k hm).younger
  have hqp : q = p := Option.some.inj ((home s q hq).symm.trans hp)
  exact ⟨s, f, k, hm, hqp ▸ hq, hle, hlt⟩

end

/-! ## One step -/

theorem makings_kills {w v : World α κ σ} {d : List NodeId} {c : List ShapeId} (k : Kills w v d c) :
    v.makings = w.makings := by
  rw [makings, k.torn.journal, List.filterMap_append, makings, List.filterMap_map]
  refine (congrArg _ (List.filterMap_eq_nil_iff.2 fun _ _ => ?_)).trans (List.append_nil _)
  rfl

theorem makings_take (w : World α κ σ) (creator : ShapeId) (first : NodeId) (count : Nat) :
    (w.take creator first count).makings = w.makings ++ [(creator, first, count)] := by
  simp [makings, take, track, note, modifyShape]

theorem generatedBy_take (w : World α κ σ) {creator : ShapeId} (h : creator < w.shapes.size) (first : NodeId)
    (count : Nat) (t : ShapeId) :
    (w.take creator first count).generatedBy t =
      if t = creator then w.generatedBy t ++ [first] else w.generatedBy t :=
  generatedBy_track (w.note (.made creator first count)) creator t first h

theorem creator_take {w : World α κ σ} {creator : ShapeId} {first : NodeId} {count : Nat} {m p : NodeId}
    (h : (w.take creator first count).Creator m p) :
    w.Creator m p ∨ (first ≤ m ∧ m < first + count) ∧ w.homeOf creator = some p := by
  obtain ⟨s, f, k, hm, hp, hle, hlt⟩ := h
  rw [(sameScene_take w creator first count).home] at hp
  rw [makings_take, List.mem_append, List.mem_singleton] at hm
  rcases hm with hm | hm
  · exact Or.inl ⟨s, f, k, hm, hp, hle, hlt⟩
  · simp only [Prod.mk.injEq] at hm
    obtain ⟨rfl, rfl, rfl⟩ := hm
    exact Or.inr ⟨⟨hle, hlt⟩, hp⟩

/-- a living shape takes nodes that hang under one another and carry no start symbols -/
theorem Owned.take {w : World α κ σ} {creator : ShapeId} {own first : NodeId} {count : Nat}
    (entered : ∀ s f k, (s, f, k) ∈ w.makings → Entered w s f k)
    (started : ∀ n s, w.shapeOn? n = some s →
      first ≤ n ∧ n < first + count ∨ w.rootKeyAt s = some n ∨ ∃ p, w.Creator n p)
    (unmade : ∀ n s p, w.shapeOn? n = some s → w.rootKeyAt s = some n →
      ¬ (w.Creator n p ∨ first ≤ n ∧ n < first + count))
    (ho : w.homeOf creator = some own) (hl : w.isAlive own = true) (hlt : own < first)
    (hk : 0 < count ∧ first + count = w.nextId)
    (hin : ∀ m, first < m → m ≤ w.nodes.size → ∃ p, w.parentOf m = some p ∧ first ≤ p) :
    Owned (w.take creator first count) where
  entered s f k hm := by
    have e := sameScene_take w creator first count
    have hc := lt_size_of_homeOf ho
    rw [makings_take, List.mem_append, List.mem_singleton] at hm
    rcases hm with hm | hm
    · exact (entered s f k hm).sameScene e fun t _ => mem_generatedBy_track _ creator t first
    · simp only [Prod.mk.injEq] at hm
      obtain ⟨rfl, rfl, rfl⟩ := hm
      refine ⟨⟨own, (e.home s).trans ho, hlt⟩, ⟨hk.1, hk.2.le⟩, fun _ => ⟨?_, ?_⟩, fun m hfm hmk _ => ?_⟩
      · exact shapeAlive_iff.2 ⟨own, (e.home s).trans ho, (e.isAlive own).trans hl⟩
      · rw [generatedBy_take w hc, if_pos rfl]
        exact List.mem_append_right _ List.mem_cons_self
      · rw [e.parentOf]
        exact hin m hfm (Nat.le_of_lt_succ (hmk.trans_eq hk.2))
  started n s hs := by
    have e := sameScene_take w creator first count
    rw [e.shapeOn?] at hs
    rw [e.rootKey]
    rcases started n s hs with hn | hroot | ⟨p, hp⟩
    · refine Or.inr ⟨own, creator, first, count, ?_, (e.home creator).trans ho, hn⟩
      rw [makings_take]
      exact List.mem_append_right _ List.mem_cons_self
    · exact Or.inl hroot
    · refine Or.inr ⟨p, hp.mono (fun x hx => ?_) fun s n hn => (e.home s).trans hn⟩
      rw [makings_take]
      exact List.mem_append_left _ hx
  unmade n s p hs hr hc := by
    have e := sameScene_take w creator first count
    rw [e.shapeOn?] at hs
    rw [e.rootKey] at hr
    exact unmade n s p hs hr ((creator_take hc).imp_right And.left)

/-- nothing new was made, and whoever carries a shape carried it before -/
theorem Owned.nothingMade {w v : World α κ σ} (o : Owned w)
    (entered : ∀ s f k, Entered w s f k → Entered v s f k) (mk : v.makings = w.makings)
    (shape : ∀ n s, v.shapeOn? n = some s → w.shapeOn? n = some s)
    (rootKey : ∀ s, v.rootKeyAt s = w.rootKeyAt s)
    (home : ∀ s n, w.homeOf s = some n → v.homeOf s = some n) : Owned v where
  entered s f k hm := entered s f k (o.entered s f k (mk ▸ hm))
  started n s hs := by
    rw [rootKey]
    exact (o.started n s (shape n s hs)).imp id (Exists.imp fun p hp => hp.mono (fun x hx => mk ▸ hx) home)
  unmade n s p hs hr hc := by
    rw [rootKey] at hr
    exact o.unmade n s p (shape n s hs) hr (hc.back o.entered mk home)

theorem Owned.sameScene {w v : World α κ σ} (o : Owned w) (e : SameScene w v)
    (lists : ∀ t g, g ∈ w.generatedBy t → g ∈ v.generatedBy t) (mk : v.makings = w.makings) : Owned v :=
  o.nothingMade (fun _ _ _ h => h.sameScene e lists) mk (fun n _ hs => e.shapeOn? n ▸ hs) e.rootKey
    fun s _ hn => (e.home s).trans hn

theorem makings_addNode (w : World α κ σ) (name : String) (kind : NodeKind) (parent : Option NodeId) (pose : Pose α)
    (template : Option String) : (w.addNode name kind parent pose template).makings = w.makings := by
  rw [makings, addNode_eq, makings]

theorem Owned.addNode {w : World α κ σ} (o : Owned w) (name : String) (kind : NodeKind) (parent : Option NodeId)
    (pose : Pose α) (template : Option String) (hp : ∀ p, parent = some p → w.isAlive p = true) :
    Owned (w.addNode name kind parent pose template) := by
  have a := adds_addNode w name kind parent pose template hp
  have hhome (s : ShapeId) (n : NodeId) (hn : w.homeOf s = some n) :
      (w.addNode name kind parent pose template).homeOf s = some n := by
    rw [homeOf_addNode]
    exact hn
  refine o.nothingMade (fun s f k he => he.adds a (hhome s) fun g hg => ?_)
    (makings_addNode w name kind parent pose template) (fun n s hs => ?_)
    (rootKeyAt_addNode w name kind parent pose template) hhome
  · rw [generatedBy_addNode]
    exact hg
  · rw [a.shapeOn?] at hs
    split_ifs at hs
    exact hs

section

variable {w : World α κ σ} (kind : κ) (name : String) (parent : Option NodeId) (pose : Pose α)
  (rootKey : Option NodeId)

theorem makings_seat : (w.seat kind name parent pose rootKey).makings = w.makings := by
  rw [makings, journal_seat, makings]

/-- a new symbol leaves what was entered as it is, and it is the only one that nobody has entered -/
theorem Owned.seat (o : Owned w) (h : Sound w) (hp : ∀ p, parent = some p → w.isAlive p = true) :
    (∀ s f k, (s, f, k) ∈ (w.seat kind name parent pose rootKey).makings →
      Entered (w.seat kind name parent pose rootKey) s f k) ∧
    ∀ n s, (w.seat kind name parent pose rootKey).shapeOn? n = some s →
      (n = w.nextId ∧ s = w.shapes.size ∧ ∀ p, ¬ (w.seat kind name parent pose rootKey).Creator n p) ∨
      n < w.nextId ∧ (w.seat kind name parent pose rootKey).rootKeyAt s = w.rootKeyAt s ∧
        w.shapeOn? n = some s ∧ ∀ p, (w.seat kind name parent pose rootKey).Creator n p ↔ w.Creator n p := by
  have a := adds_seat w kind name parent pose rootKey hp
  have hmk := makings_seat kind name parent pose rootKey (w := w)
  have hhome (s : ShapeId) (n : NodeId) (hn : w.homeOf s = some n) :
      (w.seat kind name parent pose rootKey).homeOf s = some n := by
    rw [homeOf_seat, if_neg (lt_size_of_homeOf hn).ne]
    exact hn
  have hcreator (n p : NodeId) : (w.seat kind name parent pose rootKey).Creator n p ↔ w.Creator n p :=
    ⟨fun hc => hc.back o.entered hmk hhome, fun hc => hc.mono (fun x hx => hmk ▸ hx) hhome⟩
  refine ⟨fun s f k hm => ?_, fun n s hs => ?_⟩
  · refine (o.entered s f k (hmk ▸ hm)).adds a (hhome s) fun g hg => ?_
    rw [generatedBy_seat]
    exact hg
  · rw [a.shapeOn?] at hs
    split_ifs at hs with hn
    · refine Or.inl ⟨hn, (Option.some.inj hs).symm, fun p hc => ?_⟩
      obtain ⟨t, f, k, hm, -, -, hlt⟩ := (hcreator n p).1 hc
      exact absurd (hlt.trans_le (o.entered t f k hm).known.2) (not_lt.2 hn.ge)
    · refine Or.inr ⟨Nat.lt_succ_of_le (le_size_of_shapeOn? hs), ?_, hs, hcreator n⟩
      rw [rootKeyAt_seat, if_neg (lt_size_of_homeOf (h.home n s hs)).ne]

/-- a new start symbol was made by nobody -/
theorem Owned.seatRoot (o : Owned w) (h : Sound w) (hp : ∀ p, parent = some p → w.isAlive p = true) :
    Owned (w.seat kind name parent pose none) := by
  obtain ⟨hentered, hseat⟩ := o.seat kind name parent pose none h hp
  refine ⟨hentered, fun n s hs => ?_, fun n s p hs hr => ?_⟩
  · rcases hseat n s hs with ⟨rfl, rfl, -⟩ | ⟨-, hr, hsw, hc⟩
    · refine Or.inl ?_
      rw [rootKeyAt_seat, if_pos rfl]
      rfl
    · rw [hr]
      exact (o.started n s hsw).imp id (Exists.imp fun p hp => (hc p).2 hp)
  · rcases hseat n s hs with ⟨-, -, hc⟩ | ⟨-, hrw, hsw, hc⟩
    · exact hc p
    · rw [hc]
      exact o.unmade n s p hsw (hrw ▸ hr)

/-- a new symbol under another's root was made by whoever takes it -/
theorem Owned.seatSymbol (o : Owned w) (h : Sound w) (hp : ∀ p, parent = some p → w.isAlive p = true) {creator : ShapeId}
    {own : NodeId} (ho : w.homeOf creator = some own) (hl : w.isAlive own = true) :
    Owned ((w.seat kind name parent pose (some ((w.rootKeyAt creator).getD own))).take creator w.nextId 1) := by
  have a := adds_seat w kind name parent pose (some ((w.rootKeyAt creator).getD own)) hp
  have hown : own < w.nextId := Nat.lt_succ_of_le (le_size_of_isAlive hl)
  obtain ⟨hentered, hseat⟩ := o.seat kind name parent pose (some ((w.rootKeyAt creator).getD own)) h hp
  have hhome : (w.seat kind name parent pose (some ((w.rootKeyAt creator).getD own))).homeOf creator = some own := by
    rw [homeOf_seat, if_neg (lt_size_of_homeOf ho).ne]
    exact ho
  refine Owned.take hentered (fun n s hs => ?_) (fun n s p hs hr => ?_) hhome ?_ hown ⟨Nat.one_pos, ?_⟩
    fun m hlt hle => ?_
  · rcases hseat n s hs with ⟨rfl, -⟩ | ⟨-, hr, hsw, hc⟩
    · exact Or.inl ⟨le_rfl, Nat.lt_succ_self _⟩
    · rw [hr]
      exact Or.inr ((o.started n s hsw).imp id (Exists.imp fun p hp => (hc p).2 hp))
  · rcases hseat n s hs with ⟨rfl, rfl, -⟩ | ⟨hlt, hrw, hsw, hc⟩
    · -- the new symbol's root is older than the symbol
      rw [rootKeyAt_seat, if_pos rfl] at hr
      exact absurd ((h.key_getD_le ho).trans_lt hown) (not_lt.2 (Option.some.inj hr).ge)
    · rintro (hm | ⟨hge, -⟩)
      · exact o.unmade n s p hsw (hrw ▸ hr) ((hc p).1 hm)
      · exact absurd hlt (not_lt.2 hge)
  · exact (a.isAlive own).2 (Or.inr hl)
  · rw [nextId, nextId, a.size]
  · -- there is no younger node
    rw [a.size] at hle
    exact absurd hlt (not_lt.2 hle)

end

theorem Step.owned {w v : World α κ σ} (h : Sound w) (s : Step w v) (o : Owned w) : Owned v := by
  cases s with
  | aside e hg _ hm => exact o.sameScene e (fun t g hgt => hg t ▸ hgt) hm
  | agenda _ _ =>
    exact o.sameScene ⟨rfl, rfl, rfl, rfl, rfl, fun _ => rfl, fun _ => rfl, rfl⟩ (fun _ _ => id) rfl
  | node name kind parent pose template hp => exact o.addNode name kind parent pose template hp
  | root kind name parent pose hp => exact o.seatRoot kind name parent pose h hp
  | symbol kind name parent pose ho hl hp => exact o.seatSymbol kind name parent pose h hp ho hl
  | take ho hl hlt hf hk hbare hin =>
    rename_i creator own first count
    refine Owned.take o.entered (fun n s hs => Or.inr (o.started n s hs)) (fun n s p hs hr => ?_) ho hl hlt ⟨?_, hk⟩ hin
    · rintro (hc | ⟨hge, hle⟩)
      · exact o.unmade n s p hs hr hc
      · rw [hbare n hge (Nat.le_of_lt_succ (hle.trans_eq hk))] at hs
        exact absurd hs (by simp)
    · by_contra hc
      have hz : count = 0 := Nat.eq_zero_of_not_pos hc
      rw [hz, Nat.add_zero] at hk
      exact nextId_ne (le_size_of_isAlive hf) hk
  | track _ _ =>
    refine o.sameScene (sameScene_track w _ _) (fun t _ => mem_generatedBy_track w _ t _) ?_
    simp [makings, World.track, World.note, World.modifyShape]
  | kills k =>
    exact o.nothingMade (fun s f n he => he.kills h k) (makings_kills k) (fun n s hs => k.torn.shapeOn? n ▸ hs)
      k.torn.rootKeyAt fun s n hn => (k.torn.homeOf s).trans hn

theorem Steps.owned {w v : World α κ σ} (h : Sound w) (s : Steps w v) (o : Owned w) : Owned v := by
  induction s with
  | refl => exact o
  | tail hs hstep ih => exact hstep.owned (Steps.sound h hs) ih

/-! ## What follows -/

section

variable {w : World α κ σ}

/-- a living node of an entry hangs under the first one, which lives, too -/
theorem Entered.reach {s : ShapeId} {first m : NodeId} {count : Nat} (h : Entered w s first count) (hs : Sound w)
    (hle : first ≤ m) (hlt : m < first + count) (hl : w.isAlive m = true) : Reach w first m := by
  induction m using Nat.strong_induction_on with
  | _ m ih =>
    rcases Nat.eq_or_lt_of_le hle with rfl | hfm
    · exact .refl hl
    · obtain ⟨p, hp, hfp⟩ := h.inside m hfm hlt hl
      obtain ⟨-, hlp, hpm⟩ := hs.parent_alive m p hp
      have hreach := ih p hpm hfp (lt_trans hpm hlt) hlp
      refine hreach.trans (.step hlp (mem_successors.2 (Or.inl ((hs.mem_children m p).2 hp))) (.refl hl))

/-- the creator of a living node lives, is older, and leads to it -/
theorem Owned.creator (o : Owned w) (h : Sound w) {m p : NodeId} (hc : w.Creator m p) (hl : w.isAlive m = true) :
    w.isAlive p = true ∧ p < m ∧ Reach w p m ∧ ∃ s f, w.homeOf s = some p ∧ f ∈ w.generatedBy s ∧ Reach w f m := by
  obtain ⟨s, f, k, hm, hp, hle, hlt⟩ := hc
  have he := o.entered s f k hm
  have hreach := he.reach h hle hlt hl
  obtain ⟨hs, hg⟩ := he.listed hreach.alive_left
  obtain ⟨n, hn, hln⟩ := shapeAlive_iff.1 hs
  obtain rfl : n = p := Option.some.inj (hn.symm.trans hp)
  obtain ⟨q, hq, hqf⟩ := he.younger
  obtain rfl : q = n := Option.some.inj (hq.symm.trans hn)
  have hstep : Reach w q m := .step hln (mem_successors.2 (Or.inr ⟨s, h.on_home s q hn, hg⟩)) hreach
  exact ⟨hln, hqf.trans_le hle, hstep, s, f, hn, hg, hreach⟩

/-- all creators of a living node live, are older, and lead to it -/
theorem Owned.offspring (o : Owned w) (h : Sound w) {p m : NodeId} (hc : w.Offspring p m)
    (hl : w.isAlive m = true) :
    w.isAlive p = true ∧ p < m ∧ ∃ s f, w.homeOf s = some p ∧ f ∈ w.generatedBy s ∧ Reach w f m := by
  induction hc with
  | single hc =>
    obtain ⟨hlp, hlt, -, hrest⟩ := o.creator h hc hl
    exact ⟨hlp, hlt, hrest⟩
  | tail _ hc ih =>
    obtain ⟨hlb, hltb, s, f, hs, hf, hfm⟩ := ih
    obtain ⟨hlp, hlt, -, t, g, ht, hg, hgb⟩ := o.creator h hc hlb
    refine ⟨hlp, hlt.trans hltb, t, g, ht, hg, hgb.trans ?_⟩
    exact .step hlb (mem_successors.2 (Or.inr ⟨s, h.on_home s _ hs, hf⟩)) hfm

/-- a living node that was made leads up to a living start symbol -/
theorem Owned.ends_at_start (o : Owned w) (h : Sound w) {m : NodeId} (hl : w.isAlive m = true)
    (hm : ∃ p, w.Creator m p) : ∃ r, w.Offspring r m ∧ w.isAlive r = true ∧ w.IsStart r := by
  induction m using Nat.strong_induction_on with
  | _ m ih =>
    obtain ⟨p, hp⟩ := hm
    obtain ⟨hlp, hlt, -, s, f, hs, -⟩ := o.creator h hp hl
    rcases o.started p s (h.on_home s p hs) with hroot | hmade
    · exact ⟨p, .single hp, hlp, s, h.on_home s p hs, hroot⟩
    · obtain ⟨r, hr, hlr, hstart⟩ := ih p hlt hlp hmade
      exact ⟨r, .head hp hr, hlr, hstart⟩

/-- a teardown leaves the record of creation as it is -/
theorem Kills.offspring_iff {v : World α κ σ} {d : List NodeId} {c : List ShapeId} (k : Kills w v d c)
    {p m : NodeId} : v.Offspring p m ↔ w.Offspring p m := by
  have hmk := makings_kills k
  refine ⟨Relation.TransGen.mono (fun a b hab => ?_) m p, Relation.TransGen.mono (fun a b hab => ?_) m p⟩
  · exact hab.mono (fun x hx => hmk ▸ hx) fun s n hn => (k.torn.homeOf s).symm.trans hn
  · exact hab.mono (fun x hx => hmk ▸ hx) fun s n hn => (k.torn.homeOf s).trans hn

end

end SceneGrammar.World

namespace SceneGrammar

open World

section

variable {α κ σ : Type} [Scalar α] [SymbolKind κ]

theorem Reachable.owned {w : World α κ σ} (h : Reachable w) : w.Owned := by
  induction h with
  | start hw => exact hw.owned
  | run g p hr hp ih => exact (hp.steps hr.sound).owned hr.sound ih

/-- **No leaks.** In a reachable world
- a living node that a shape has taken on its list as its symbol or terminal is still there, and the shape lives;
- the creators of a living node live and are older, and those that nobody has made are the start symbols, so whoever
  follows them upwards ends at a living start symbol;
- after the content of a living shape is deleted, nothing lives that it or its symbols have made, wherever it hangs;
- nor does anything after its node is destroyed. -/
theorem Reachable.no_leak {w : World α κ σ} (h : Reachable w) :
    (∀ s n k, (s, n, k) ∈ w.makings → w.isAlive n = true → w.shapeAlive s = true ∧ n ∈ w.generatedBy s) ∧
    (∀ n p, w.isAlive n = true → w.Offspring p n → w.isAlive p = true ∧ p < n ∧
      (w.IsStart p ↔ ¬ ∃ q, w.Creator p q)) ∧
    (∀ n, w.isAlive n = true → (∃ p, w.Creator n p) →
      ∃ r, w.Offspring r n ∧ w.isAlive r = true ∧ w.IsStart r) ∧
    (∀ s r, w.homeOf s = some r → w.isAlive r = true → ∃ v, deleteGenerated s w = .ok () v ∧
      v.isAlive r = true ∧ ∀ n, v.Offspring r n → ¬ v.isAlive n = true) ∧
    (∀ r, w.isAlive r = true → ¬ ((destroy r).after w).isAlive r = true ∧
      ∀ n, ((destroy r).after w).Offspring r n → ¬ ((destroy r).after w).isAlive n = true) := by
  have hs := h.sound
  have ho := h.owned
  refine ⟨fun s n k hm => (ho.entered s n k hm).listed, ?_, fun n hl hm => ho.ends_at_start hs hl hm, ?_, ?_⟩
  · intro n p hl hc
    obtain ⟨hlp, hlt, s, f, hp, -⟩ := ho.offspring hs hc hl
    have hon := hs.on_home s p hp
    refine ⟨hlp, hlt, fun ⟨t, ht, hr⟩ ⟨q, hq⟩ => ho.unmade p t q ht hr hq, fun hnone => ⟨s, hon, ?_⟩⟩
    exact (ho.started p s hon).resolve_right hnone
  · intro s r hr hl
    obtain ⟨v, d, c, hv, hf, -⟩ := deleteGenerated_killsFrom hs s
    refine ⟨v, hv, (hf.torn.isAlive r).2 ⟨hl, ?_⟩, fun n hn hlv => ?_⟩
    · exact hf.notMem_of_lt hs.toTame fun g hg => hs.newer s r hr g hg
    · obtain ⟨hlw, hnd⟩ := (hf.torn.isAlive n).1 hlv
      obtain ⟨-, -, t, g, ht, hg, hreach⟩ := ho.offspring hs (hf.toKills.offspring_iff.1 hn) hlw
      have hts : t = s := Option.some.inj ((hs.on_home t r ht).symm.trans (hs.on_home s r hr))
      exact hnd ((hf.mem_dead_iff n).2 ⟨g, hts ▸ hg, hreach⟩)
  · intro r hl
    obtain ⟨d, c, hf⟩ := destroy_kills hs.toTame r
    have hdead := (hf.mem_dead_iff r).2 ⟨r, List.mem_cons_self, .refl hl⟩
    refine ⟨fun hlv => ((hf.torn.isAlive r).1 hlv).2 hdead, fun n hn hlv => ?_⟩
    obtain ⟨hlw, hnd⟩ := (hf.torn.isAlive n).1 hlv
    obtain ⟨-, -, t, g, ht, hg, hreach⟩ := ho.offspring hs (hf.toKills.offspring_iff.1 hn) hlw
    refine hnd (hf.closed_reach hdead (.step hl (mem_successors.2 (Or.inr ⟨t, hs.on_home t r ht, hg⟩)) hreach))

end

/-- a grammar whose rules do nothing -/
def idle : Grammar Float (City.Kind Float) Unit := { rule := fun _ _ => .done (), nesting := 1, spare := 0 }

/-- a post with a lamp on it -/
def lantern : Template Float := { Template.plain "lantern" "" with parts := [.plain "lamp" ""] }

/-- two roots, and a symbol of the first that puts a lantern under the second -/
def lanternAbroad : Prog Float (City.Kind Float) Unit Unit :=
  .perform (.createRoot (.of .roof) "home" none (.displaced .origin) none) fun home =>
    .perform (.createRoot (.of .roof) "abroad" none (.displaced .origin) none) fun _ =>
      .perform (.createSymbol home (.of .roof) "gardener" none (.displaced .origin)) fun gardener =>
        .perform (.spawn gardener (.inline lantern) (some 2) (.displaced .origin)) fun _ => .done ()

/-- the lantern and its lamp go with the content of the first root, though they hang under the second -/
theorem no_leak_abroad :
    let w := (lanternAbroad.run idle).after (.fresh ⟨fun _ => 0, 0⟩ ())
    w.liveNodes = [1, 2, 3, 4, 5] ∧ ((deleteGenerated 0).after w).liveNodes = [1, 2] ∧
      ∃ v, deleteGenerated 0 w = .ok () v ∧ v.isAlive 1 = true ∧ ∀ n, v.Offspring 1 n → ¬ v.isAlive n = true := by
  have heeds : lanternAbroad.Heeds idle (.fresh ⟨fun _ => 0, 0⟩ ()) :=
    Prog.heeds_perform (by decide +kernel) rfl <| Prog.heeds_perform (by decide +kernel) rfl <|
      Prog.heeds_perform (by decide +kernel) rfl <| Prog.heeds_perform (by decide +kernel) rfl rfl
  have h := Reachable.no_leak (.run idle lanternAbroad (.start (pristine_fresh _ _)) heeds)
  exact ⟨by decide +kernel, by decide +kernel, h.2.2.2.1 0 1 (by decide +kernel) (by decide +kernel)⟩

end SceneGrammar
