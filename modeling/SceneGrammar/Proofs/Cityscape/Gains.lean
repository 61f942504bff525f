/-
Rules at work, each under its own node.

`Host l w s n`: in an eager world with the library `l`, the shape `s` stands on the living node `n` and may run its rule.
`Gains s n w v new bill`: a rule of `s` has led from `w` to `v`. The nodes `new` have come under `n` and on the list of
`s`; of all other nodes and shapes there were, none has changed. The `bill` tells what this has taken: how often the
source of `s` has drawn, and how many nodes there are more.

Under a host, draws stay in their range, terminals are copies of their templates, and a symbol has been expanded by the
time its creation returns (`Host.randomInt`, `Host.spawn`, `Host.createSymbol`). None of these fails. `ExpandsTo` says
what the expansion of a kind of symbol puts under its node, `Yields` what a program comes to; `yields_gainsEach` is the
rule for loops that put things up one behind the other.
-/
import SceneGrammar.Proofs.Cityscape.Copies
import SceneGrammar.Proofs.Range
import SceneGrammar.Proofs.Rebuild
import SceneGrammar.Proofs.Surroundings

namespace SceneGrammar

/-! ## Bills -/

/-- what it takes to put something up: draws from a source, and nodes -/
@[ext]
structure Bill where
  draws : Nat
  nodes : Nat

namespace Bill

instance : Add Bill := ⟨fun a b => ⟨a.draws + b.draws, a.nodes + b.nodes⟩⟩

@[simp] theorem draws_add (a b : Bill) : (a + b).draws = a.draws + b.draws := rfl

@[simp] theorem nodes_add (a b : Bill) : (a + b).nodes = a.nodes + b.nodes := rfl

/-- the bill of all items of a list -/
def total {ι : Type} (bill : ι → Bill) (items : List ι) : Bill :=
  ⟨(items.map fun i => (bill i).draws).sum, (items.map fun i => (bill i).nodes).sum⟩

@[simp] theorem total_singleton {ι : Type} (bill : ι → Bill) (i : ι) : total bill [i] = bill i := by
  ext <;> simp [total]

theorem total_append {ι : Type} (bill : ι → Bill) (xs ys : List ι) :
    total bill (xs ++ ys) = total bill xs + total bill ys := by
  ext <;> simp [total]

end Bill

namespace World

variable {α κ σ β γ : Type} {w v u : World α κ σ} {l : TemplateLibrary α} {s t : ShapeId} {n : NodeId} {a b : Bill}

/-- a shape draws from the source that its start symbol carries -/
def DrawsFrom (w : World α κ σ) (s : ShapeId) (i : SourceId) : Prop :=
  ∃ key root, w.rootKeyAt s = some key ∧ key ≤ w.nodes.size ∧ w.registered? key = some root ∧
    firstSource? (w.componentsOf root) = some i

theorem DrawsFrom.sourceOf [SymbolKind κ] {i : SourceId} (h : w.DrawsFrom s i) (hn : w.homeOf s = some n) :
    w.sourceOf s = .ok i := by
  obtain ⟨key, root, hkey, -, hroot, hi⟩ := h
  rw [sourceOf_eq (rootOf_eq hn hkey hroot), hi, Option.getD_some]

/-- the source of `s`, if it has a key, has drawn as often as the bill says, and so many nodes have come -/
structure Costs (s : ShapeId) (w v : World α κ σ) (bill : Bill) : Prop where
  draws : ∀ i seed key d, w.DrawsFrom s i → w.sources[i]? = some ⟨seed, some key, d⟩ →
    v.sources[i]? = some ⟨seed, some key, d + bill.draws⟩
  count : v.nodeCount = w.nodeCount + bill.nodes

/-- whatever touches neither sources nor the registry is free -/
theorem costs_nothing (hsources : v.sources = w.sources) (hregistry : v.registry = w.registry) : Costs s w v ⟨0, 0⟩ where
  draws _ _ _ _ _ hr := hsources ▸ hr
  count := congrArg List.length hregistry

/-- costs add up, also those of a shape that draws from the same source -/
theorem Costs.trans (h : Costs s w v a) (k : Costs t v u b) (hdrawsFrom : ∀ i, w.DrawsFrom s i → v.DrawsFrom t i) :
    Costs s w u (a + b) where
  draws i seed key d hi hr := by
    rw [k.draws i seed key _ (hdrawsFrom i hi) (h.draws i seed key d hi hr), Bill.draws_add, Nat.add_assoc]
  count := by
    rw [k.count, h.count]
    exact Nat.add_assoc _ _ _

/-! ## Hosts and what comes under them -/

/-- a shape on its living node, in an eager world with a library -/
structure Host (l : TemplateLibrary α) (w : World α κ σ) (s : ShapeId) (n : NodeId) : Prop where
  home : w.homeOf s = some n
  alive : w.isAlive n = true
  eager : w.eager = true
  library : w.templates = l

/-- a list of generated nodes with more at its end; an absent list stays absent without any -/
def longer (list : Option (List NodeId)) (new : List NodeId) : Option (List NodeId) :=
  if new = [] then list else some (list.getD [] ++ new)

theorem getD_longer (list : Option (List NodeId)) (new : List NodeId) :
    (longer list new).getD [] = list.getD [] ++ new := by
  unfold longer
  split_ifs with h
  · rw [h, List.append_nil]
  · rfl

theorem longer_append (list : Option (List NodeId)) (a b : List NodeId) :
    longer (longer list a) b = longer list (a ++ b) := by
  by_cases ha : a = []
  · simp [longer, ha]
  · by_cases hb : b = [] <;> simp [longer, ha, hb]

/-- the nodes `new` have come under `n` and on the list of `s`; nothing else that was there has changed -/
structure Gains (s : ShapeId) (n : NodeId) (w v : World α κ σ) (new : List NodeId) (bill : Bill) : Prop
    extends Hangs w v (some n) new, Costs s w v bill where
  shapes : w.shapes.size ≤ v.shapes.size
  shape : ∀ t < w.shapes.size, v.shape? t =
    (w.shape? t).map fun x => { x with generated := if t = s then longer x.generated new else x.generated }
  registered : ∀ m ≤ w.nodes.size, v.registered? m = w.registered? m
  eager : v.eager = w.eager
  library : v.templates = w.templates

/-- the scene has not changed -/
theorem gains_of_scene (hnodes : v.nodes = w.nodes) (hshapes : v.shapes = w.shapes) (hbound : v.bound = w.bound)
    (heager : v.eager = w.eager) (hlibrary : v.templates = w.templates) (hcosts : Costs s w v a) :
    Gains s n w v [] a where
  toCosts := hcosts
  size := (congrArg Array.size hnodes).ge
  node m _ := by
    rw [node?_congr hnodes]
    cases w.node? m <;> simp
  shapes := (congrArg Array.size hshapes).ge
  shape t _ := by
    rw [shape?, hshapes, ← shape?]
    cases w.shape? t <;> simp [longer]
  registered m _ := by rw [registered?, hbound, registered?]
  eager := heager
  library := hlibrary

theorem Gains.refl (s : ShapeId) (n : NodeId) (w : World α κ σ) : Gains s n w w [] ⟨0, 0⟩ :=
  gains_of_scene rfl rfl rfl rfl rfl (costs_nothing rfl rfl)

theorem Gains.rootKeyAt {new : List NodeId} (h : Gains s n w v new a) (ht : t < w.shapes.size) :
    v.rootKeyAt t = w.rootKeyAt t := by
  rw [World.rootKeyAt, h.shape t ht, World.rootKeyAt]
  cases w.shape? t <;> rfl

theorem Gains.drawsFrom {new : List NodeId} {i : SourceId} (h : Gains s n w v new a) (hi : w.DrawsFrom t i) :
    v.DrawsFrom t i := by
  obtain ⟨key, root, hkey, hle, hroot, hi⟩ := hi
  have ht : t < w.shapes.size := by
    obtain ⟨x, hx, -⟩ := Option.bind_eq_some_iff.1 hkey
    exact lt_size_of_shape? hx
  have hr : root < w.shapes.size := by
    by_contra hc
    rw [componentsOf, shape?_eq_none_iff.2 (not_lt.1 hc)] at hi
    cases hi
  refine ⟨key, root, ?_, hle.trans h.size, (h.registered key hle).trans hroot, ?_⟩
  · exact (h.rootKeyAt ht).trans hkey
  · rw [componentsOf, h.shape root hr, ← hi, componentsOf]
    cases w.shape? root <;> rfl

theorem Gains.trans {x y : List NodeId} (h : Gains s n w v x a) (i : Gains s n v u y b) :
    Gains s n w u (x ++ y) (a + b) where
  toHangs := h.toHangs.trans i.toHangs
  toCosts := h.toCosts.trans i.toCosts fun _ => h.drawsFrom
  shapes := h.shapes.trans i.shapes
  shape t ht := by
    rw [i.shape t (ht.trans_le h.shapes), h.shape t ht, Option.map_map]
    refine congrArg (Option.map · (w.shape? t)) (funext fun x => ?_)
    by_cases hts : t = s <;> simp [hts, longer_append]
  registered m hm := (i.registered m (hm.trans h.size)).trans (h.registered m hm)
  eager := i.eager.trans h.eager
  library := i.library.trans h.library

theorem Gains.homeOf {new : List NodeId} (h : Gains s n w v new a) {t : ShapeId} (ht : t < w.shapes.size) :
    v.homeOf t = w.homeOf t := by
  rw [World.homeOf, h.shape t ht, World.homeOf]
  cases w.shape? t <;> rfl

theorem Gains.generatedBy {new : List NodeId} (h : Gains s n w v new a) (hs : s < w.shapes.size) :
    v.generatedBy s = w.generatedBy s ++ new := by
  obtain ⟨x, hx⟩ : ∃ x, w.shape? s = some x := ⟨_, Array.getElem?_eq_getElem hs⟩
  simp [World.generatedBy, h.shape s hs, hx, getD_longer]

/-- what happens among newer nodes and shapes counts for the bill alone -/
theorem Gains.beyond {new : List NodeId} (h : Gains s n w v new a) (hsize : v.nodes.size ≤ u.nodes.size)
    (hshapes : v.shapes.size ≤ u.shapes.size) (hnode : ∀ m ≤ w.nodes.size, u.node? m = v.node? m)
    (hshape : ∀ t < w.shapes.size, u.shape? t = v.shape? t)
    (hregistered : ∀ m ≤ w.nodes.size, u.registered? m = v.registered? m) (heager : u.eager = v.eager)
    (hlibrary : u.templates = v.templates) (hcosts : Costs s w u b) : Gains s n w u new b where
  toCosts := hcosts
  size := h.size.trans hsize
  node m hm := (hnode m hm).trans (h.node m hm)
  shapes := h.shapes.trans hshapes
  shape t ht := (hshape t ht).trans (h.shape t ht)
  registered m hm := (hregistered m hm).trans (h.registered m hm)
  eager := heager.trans h.eager
  library := hlibrary.trans h.library

theorem Host.gains {new : List NodeId} (h : Host l w s n) (k : Gains s n w v new a) : Host l v s n where
  home := (k.homeOf (lt_size_of_homeOf h.home)).trans h.home
  alive := by
    obtain ⟨x, hx, hl⟩ := isAlive_iff.1 h.alive
    exact isAlive_iff.2 ⟨_, (k.node n (le_size_of_node? hx).2).trans (congrArg _ hx), hl⟩
  eager := k.eager.trans h.eager
  library := k.library.trans h.library

/-- what is younger than the node of a rule is upheld by the rule -/
theorem Gains.upholds {new : List NodeId} (h : Gains s n w v new a) (hn : w.homeOf s = some n) : Upholds n w v where
  node m x hm hx := by
    rw [h.node m (le_size_of_node? hx).2, hx]
    simp [hm.ne]
  shape t x m hx hm hlt := by
    have hts : t ≠ s := by
      rintro rfl
      have hm' : w.homeOf t = some m := by rw [World.homeOf, hx]; exact hm
      exact hlt.ne (Option.some.inj (hn.symm.trans hm'))
    rw [h.shape t (lt_size_of_shape? hx), hx]
    simp [hts]

/-- nothing that is not younger than `k` has been moved -/
def Unmoved (k : NodeId) (w v : World α κ σ) : Prop :=
  ∀ m ≤ k, ∀ x, w.node? m = some x → ∃ y, v.node? m = some y ∧ y.parent = x.parent ∧ y.pose = x.pose

theorem Gains.unmoved {s : ShapeId} {new : List NodeId} (h : Gains s n w v new a) : Unmoved n w v := by
  intro m _ x hx
  exact ⟨_, (h.node m (le_size_of_node? hx).2).trans (congrArg _ hx), rfl, rfl⟩

/-! ## Draws -/

theorem Host.sourceOf [SymbolKind κ] (h : Host l w s n) : ∃ i, w.sourceOf s = .ok i := by
  unfold World.sourceOf rootOf
  rw [inContext_eq h.home]
  exact ⟨_, rfl⟩

/-- a shape's source draws once more -/
theorem gains_setSource [SymbolKind κ] (h : Host l w s n) {i : SourceId} {r : RandomSource} (hi : w.sourceOf s = .ok i)
    (hr : w.sources[i]? = some r) :
    Gains s n w (w.setSource i (r.next w.entropy).2.1 (r.next w.entropy).2.2) [] ⟨1, 0⟩ := by
  refine gains_of_scene rfl rfl rfl rfl rfl ⟨fun j seed key d hj hs => ?_, rfl⟩
  obtain rfl : j = i := Except.ok.inj ((hj.sourceOf h.home).symm.trans hi)
  obtain rfl : r = ⟨seed, some key, d⟩ := Option.some.inj (hr.symm.trans hs)
  exact Array.getElem?_setIfInBounds_self_of_lt (Array.getElem?_eq_some_iff.1 hs).1

/-- nothing is drawn where a shape has no source -/
theorem gains_noSource [SymbolKind κ] (h : Host l w s n) {i : SourceId} (hi : w.sourceOf s = .ok i)
    (hr : w.sources[i]? = none) : Gains s n w w [] ⟨1, 0⟩ := by
  refine gains_of_scene rfl rfl rfl rfl rfl ⟨fun j seed key d hj hs => ?_, rfl⟩
  obtain rfl : j = i := Except.ok.inj ((hj.sourceOf h.home).symm.trans hi)
  rw [hr] at hs
  cases hs

/-- a draw from a range that is neither empty nor too wide -/
theorem Host.randomInt [SymbolKind κ] (h : Host l w s n) {low high : Int} (hlt : low < high)
    (hfits : Rounding.toBits 53 (high - low).toNat < Nat.pow 2 1024) :
    ∃ x v, World.randomInt s low high w = .ok x v ∧ (low ≤ x ∧ x < high) ∧ Gains s n w v [] ⟨1, 0⟩ := by
  obtain ⟨i, hi⟩ := h.sourceOf
  unfold World.randomInt
  rw [hi]
  cases hr : w.sources[i]? with
  | none => exact ⟨low, w, by simp [hr], ⟨le_rfl, hlt⟩, gains_noSource h hi hr⟩
  | some r =>
    refine ⟨_, w.setSource i (r.next w.entropy).2.1 (r.next w.entropy).2.2, ?_,
      RandomSource.landing_between hlt (RandomSource.next_lt r w.entropy), gains_setSource h hi hr⟩
    simp only [hr, RandomSource.nextInt_eq hlt hfits]

theorem Host.randomFraction [SymbolKind κ] (h : Host l w s n) :
    ∃ k v, World.randomFraction s w = .ok k v ∧ Gains s n w v [] ⟨1, 0⟩ := by
  obtain ⟨i, hi⟩ := h.sourceOf
  unfold World.randomFraction
  rw [hi]
  cases hr : w.sources[i]? with
  | none => exact ⟨0, w, by simp [hr], gains_noSource h hi hr⟩
  | some r =>
    exact ⟨(r.next w.entropy).1, w.setSource i (r.next w.entropy).2.1 (r.next w.entropy).2.2, by simp only [hr],
      gains_setSource h hi hr⟩

/-! ## Terminals -/

/-- what a shape has made, and what has come with it, under its own node -/
theorem Hangs.taken {count : Nat} (h : Hangs w v (some n) [w.nextId])
    (hsize : w.shapes.size ≤ v.shapes.size) (hshape : ∀ t < w.shapes.size, v.shape? t = w.shape? t)
    (hsur : v.surroundings = w.surroundings) (hregistered : ∀ m ≤ w.nodes.size, v.registered? m = w.registered? m)
    (hcount : v.nodeCount = w.nodeCount + count) :
    Gains s n w (v.take s w.nextId count) [w.nextId] ⟨0, count⟩ where
  registered := hregistered
  draws i seed key d _ hr := by
    have hsources : v.sources = w.sources := congrArg Surroundings.sources hsur
    exact hsources ▸ hr
  count := hcount
  size := h.size
  node := h.node
  shapes := hsize.trans_eq (sameScene_take v s w.nextId count).size.symm
  shape t ht := by
    rw [take, shape?_track]
    refine (congrArg _ (hshape t ht)).trans ?_
    refine congrArg (Option.map · (w.shape? t)) (funext fun x => ?_)
    by_cases hts : t = s <;> simp [hts, longer]
  eager := congrArg Surroundings.eager hsur
  library := congrArg Surroundings.templates hsur

section

variable [Scalar α] [SymbolKind κ]

/-- a terminal is a copy of the template of its id -/
theorem Host.spawn (h : Host l w s n) {id : String} {t : Template α} (ht : l.find? id = some t) (pose : Pose α) :
    ∃ k v, World.spawn s (.byId id) none pose w = .ok k v ∧ n < k ∧ v.Copied t (some n) pose k ∧
      Gains s n w v [k] ⟨0, t.size⟩ := by
  have hparent : ∀ p, some n = some p → w.isAlive p = true := by
    rintro p ⟨⟩
    exact h.alive
  obtain ⟨hcopy, hhangs⟩ := plant_copied t w (some n) pose hparent
  have hrest := (planted_plant t w (some n) pose hparent).rest
  have hresolve : w.resolve (.byId id) = .ok t := by simp only [resolve, h.library, ht]
  refine ⟨w.nextId, (w.plant t (some n) pose).take s w.nextId t.size, ?_, ?_, ?_, ?_⟩
  · unfold World.spawn
    simp only [nodeOf_eq_ok_iff.2 h.home, hresolve, Option.getD_none, parentFault?_of_alive h.alive]
    rfl
  · exact Nat.lt_succ_of_le (le_size_of_isAlive h.alive)
  · have hnodes : ∀ m x, 0 < m → (w.plant t (some n) pose).node? m = some x →
        ((w.plant t (some n) pose).take s w.nextId t.size).node? m = some x := fun _ _ _ hx => hx
    exact Copied.upheld hnodes t _ _ _ (Nat.succ_pos _) hcopy
  · refine hhangs.taken ?_ (fun r _ => ?_) (surroundings_plant t w (some n) pose) (fun m _ => ?_) ?_
    · rw [hrest]
    · rw [hrest]
      rfl
    · rw [hrest]
      rfl
    · rw [nodeCount, (plant_enrols t w (some n) pose hparent).1, List.length_append, List.length_reverse,
        List.length_range', Nat.add_comm]
      rfl

end

/-! ## Symbols -/

/-- a living symbol of a kind has been expanded: `made` is what it has generated, and what hangs under its node -/
structure Raised (w : World α κ σ) (kind : κ) (name : String) (under : NodeId) (pose : Pose α) (n : NodeId)
    (made : List NodeId) : Prop where
  younger : under < n
  stands : ∃ s key,
    w.node? n = some
      { id := n, name, kind := .symbol, parent := some under, children := made, pose, template := none, shape := some s
        alive := true } ∧
    w.shape? s = some
      { kind, node := some n, rootKey := some key, generated := longer none made, components := []
        state := .expanded }

theorem Raised.upheld {kind : κ} {name : String} {under k : NodeId} {pose : Pose α} {made : List NodeId}
    (h : w.Raised kind name under pose n made) (hk : k ≤ under) (hup : Upholds k w v) :
    v.Raised kind name under pose n made := by
  obtain ⟨hlt, s, key, hn, hs⟩ := h
  exact ⟨hlt, s, key, hup.node n _ (hk.trans_lt hlt) hn, hup.shape s _ n hs rfl (hk.trans_lt hlt)⟩

/-- what the expansion of a symbol of a kind comes to: `Q v n made bill` tells what `made` is, which has come under its
node `n`, and what this has taken -/
structure ExpandsTo (expand : ShapeId → Act α κ σ Unit) (l : TemplateLibrary α) (kind : κ)
    (Q : World α κ σ → NodeId → List NodeId → Bill → Prop) : Prop where
  runs : ∀ w s n, Host l w s n → (w.shape? s).map (·.kind) = some kind →
    ∃ v made bill, expand s w = .ok () v ∧ Gains s n w v made bill ∧ Q v n made bill
  stays : ∀ w v n made bill, Upholds n w v → Q w n made bill → Q v n made bill

section

variable [SymbolKind κ]

/-- a host can place a symbol -/
theorem Host.placeSymbol_eq (h : Host l w s n) (kind : κ) (name : String) (pose : Pose α) :
    placeSymbol s (.of kind) name none pose w = .ok w.shapes.size
      ((w.seat kind name (some n) pose (some ((w.rootKeyAt s).getD n))).take s w.nextId 1) := by
  have hok : ∃ v, placeSymbol s (.of kind) name none pose w = .ok w.shapes.size v := by
    unfold placeSymbol
    simp only [KindOffer.refusal?, KindOffer.kind?, nodeOf_eq_ok_iff.2 h.home, rootKeyOf_eq h.home, Option.getD_none,
      parentFault?_of_alive h.alive]
    exact ⟨_, rfl⟩
  obtain ⟨v, hv⟩ := hok
  rcases placeSymbol_cases s (.of kind) name none pose w with ⟨e, he⟩ | ⟨own, key, kind', hown, hkey, hkind, -, hr⟩
  · rw [hv] at he
    cases he
  · obtain rfl : own = n := Option.some.inj (hown.symm.trans h.home)
    obtain rfl : key = (w.rootKeyAt s).getD own := Except.ok.inj (hkey.symm.trans (rootKeyOf_eq h.home))
    obtain rfl : kind = kind' := KindOffer.of.inj hkind
    exact hr

/-- the symbol comes under the host, which has it on its list, and draws from the same source -/
theorem Host.placed (h : Host l w s n) (kind : κ) (name : String) (pose : Pose α) :
    ∃ b key, placeSymbol s (.of kind) name none pose w = .ok w.shapes.size b ∧ Gains s n w b [w.nextId] ⟨0, 1⟩ ∧
      key = (w.rootKeyAt s).getD n ∧ b.shapes.size = w.shapes.size + 1 ∧
      b.node? w.nextId = some
        { id := w.nextId, name, kind := .symbol, parent := some n, children := [], pose, template := none
          shape := some w.shapes.size, alive := true } ∧
      b.shape? w.shapes.size = some
        { kind, node := some w.nextId, rootKey := some key, generated := none, components := []
          state := .uninitialized } := by
  have hparent : ∀ p, some n = some p → w.isAlive p = true := by
    rintro p ⟨⟩
    exact h.alive
  have hplace := h.placeSymbol_eq kind name pose
  generalize (w.rootKeyAt s).getD n = key at hplace
  have hregistered (m : NodeId) (hm : m ≤ w.nodes.size) :
      (w.seat kind name (some n) pose (some key)).registered? m = w.registered? m := by
    rw [registered?_seat, if_neg (nextId_ne hm)]
  have a := adds_seat w kind name (some n) pose (some key) hparent
  have hsur := surroundings_seat w kind name (some n) pose (some key)
  have hsize := size_seat w kind name (some n) pose (some key)
  have hseat := shape?_seat w kind name (some n) pose (some key)
  generalize w.seat kind name (some n) pose (some key) = b at hplace a hsur hsize hseat hregistered
  refine ⟨_, key, hplace, ?_, rfl, (sameScene_take b s w.nextId 1).size.trans hsize, (a.node _).trans (if_pos rfl), ?_⟩
  · refine Hangs.taken ⟨a.size ▸ Nat.le_succ _, fun m hm => ?_⟩ (hsize ▸ Nat.le_succ _) (fun t ht => ?_) hsur
      hregistered (congrArg List.length a.registry)
    · rw [a.node, if_neg (nextId_ne hm)]
    · rw [hseat, if_neg ht.ne]
  · refine (shape?_track _ _ _ _).trans ((congrArg _ ((hseat _).trans (if_pos rfl))).trans ?_)
    simp [(lt_size_of_homeOf h.home).ne']

/-- **A symbol.** A symbol that a host creates has been expanded when its creation returns. It takes one node and what its
rule takes. -/
theorem Host.createSymbol {expand : ShapeId → Act α κ σ Unit} {kind : κ}
    {Q : World α κ σ → NodeId → List NodeId → Bill → Prop}
    (h : Host l w s n) (hr : ExpandsTo expand l kind Q) (name : String) (pose : Pose α) :
    ∃ t v m made bill, World.createSymbol expand s (.of kind) name none pose w = .ok t v ∧
      Gains s n w v [m] (⟨0, 1⟩ + bill) ∧ v.Raised kind name n pose m made ∧ Q v m made bill := by
  obtain ⟨b, key, hplace, hplaced, hkey, hsize, hnode, hshape⟩ := h.placed kind name pose
  have hmark (t : ShapeId) : (b.markExpanded w.shapes.size).shape? t =
      if t = w.shapes.size then (b.shape? t).map fun x => { x with state := .expanded } else b.shape? t :=
    shape?_modifyShape _ _ _ _
  have hsize' : (b.markExpanded w.shapes.size).shapes.size = w.shapes.size + 1 := by
    rw [← hsize]
    simp [markExpanded, note, modifyShape]
  have hself := (hmark w.shapes.size).trans ((if_pos rfl).trans (congrArg _ hshape))
  have hhost : Host l (b.markExpanded w.shapes.size) w.shapes.size w.nextId :=
    ⟨by rw [homeOf, hself]; rfl, isAlive_iff.2 ⟨_, hnode, rfl⟩, hplaced.eager.trans h.eager,
      hplaced.library.trans h.library⟩
  have hdrawsFrom (i : SourceId) (hi : w.DrawsFrom s i) : (b.markExpanded w.shapes.size).DrawsFrom w.shapes.size i := by
    obtain ⟨k, root, hk, hle, hroot, hsource⟩ := hplaced.drawsFrom hi
    refine ⟨k, root, ?_, hle, hroot, ?_⟩
    · have hs : w.rootKeyAt s = some k := (hplaced.rootKeyAt (lt_size_of_homeOf h.home)).symm.trans hk
      rw [rootKeyAt, hself, hkey, hs]
      rfl
    · rw [componentsOf, hmark, ← hsource, componentsOf]
      split_ifs <;> cases b.shape? root <;> rfl
  -- its rule runs, and what it does it does among the new
  obtain ⟨v, made, bill, hrun, hgains, hQ⟩ := hr.runs _ _ _ hhost (by rw [hself]; rfl)
  have hmarked : Costs s w (b.markExpanded w.shapes.size) ⟨0, 1⟩ := ⟨hplaced.draws, hplaced.count⟩
  have hcosts : Costs s w v (⟨0, 1⟩ + bill) := hmarked.trans hgains.toCosts hdrawsFrom
  refine ⟨w.shapes.size, v.note (.finished w.shapes.size), w.nextId, made, bill, ?_, ?_,
    ⟨Nat.lt_succ_of_le (le_size_of_isAlive h.alive), w.shapes.size, key, ?_, ?_⟩, ?_⟩
  · unfold World.createSymbol runExpansion
    simp only [hplace, hplaced.eager.trans h.eager, if_true, hrun]
  · refine hplaced.beyond hgains.size (hsize.trans_le (hsize'.ge.trans hgains.shapes)) (fun m hm => ?_)
      (fun t ht => ?_) (fun m hm => hgains.registered m (hm.trans hplaced.size)) hgains.eager hgains.library
      ⟨hcosts.draws, hcosts.count⟩
    · have hne : ¬ (some w.nextId = some m) := fun hc => nextId_ne hm (Option.some.inj hc).symm
      refine (hgains.node m (hm.trans hplaced.size)).trans ?_
      simp only [if_neg hne]
      exact Option.map_id'
    · refine (hgains.shape t (hsize' ▸ Nat.lt_succ_of_lt ht)).trans ?_
      simp only [if_neg ht.ne, hmark]
      exact Option.map_id'
  · refine (hgains.node w.nextId (le_size_of_node? hnode).2).trans ((congrArg _ hnode).trans ?_)
    simp
  · refine (hgains.shape w.shapes.size (hsize' ▸ Nat.lt_succ_self _)).trans ((congrArg _ hself).trans ?_)
    simp
  · exact hr.stays v _ _ _ _ ⟨fun _ _ _ hx => hx, fun _ _ _ hx _ _ => hx⟩ hQ

end

/-! ## Programs -/

section

variable [Scalar α] [SymbolKind κ]

/-- a program does not fail, and comes to an answer and a world with a property -/
def Yields (spare : Nat) (expand : ShapeId → Act α κ σ Unit) (p : Prog α κ σ β) (w : World α κ σ)
    (Q : β → World α κ σ → Prop) : Prop :=
  ∃ b v, p.exec spare expand w = .ok b v ∧ Q b v

variable {spare : Nat} {expand : ShapeId → Act α κ σ Unit}

theorem Yields.pure {Q : β → World α κ σ → Prop} {b : β} (h : Q b w) : Yields spare expand (Pure.pure b) w Q :=
  ⟨b, w, rfl, h⟩

theorem Yields.mono {Q R : β → World α κ σ → Prop} {p : Prog α κ σ β} (h : Yields spare expand p w Q)
    (hQR : ∀ b v, Q b v → R b v) : Yields spare expand p w R := by
  obtain ⟨b, v, hp, hQ⟩ := h
  exact ⟨b, v, hp, hQR b v hQ⟩

theorem Yields.bind {Q : β → World α κ σ → Prop} {R : γ → World α κ σ → Prop} {p : Prog α κ σ β}
    {f : β → Prog α κ σ γ} (h : Yields spare expand p w Q) (k : ∀ b v, Q b v → Yields spare expand (f b) v R) :
    Yields spare expand (p >>= f) w R := by
  obtain ⟨b, v, hp, hQ⟩ := h
  obtain ⟨c, u, hf, hR⟩ := k b v hQ
  refine ⟨c, u, ?_, hR⟩
  show (p.bind f).exec spare expand w = _
  rw [Prog.exec_bind, hp]
  exact hf

theorem Yields.act {o : Op α κ σ} {Q : o.Answer → World α κ σ → Prop}
    (h : ∃ x v, perform spare expand o w = .ok x v ∧ Q x v) : Yields spare expand (Prog.act o) w Q := by
  obtain ⟨x, v, ho, hQ⟩ := h
  refine ⟨x, v, ?_, hQ⟩
  simp only [Prog.act, Prog.exec, ho]

theorem Host.draw (h : Host l w s n) {low high : Int} (hlt : low < high)
    (hfits : Rounding.toBits 53 (high - low).toNat < Nat.pow 2 1024) :
    Yields spare expand (Prog.act (.randomInt s low high)) w fun (x : Int) v =>
      (low ≤ x ∧ x < high) ∧ Gains s n w v [] ⟨1, 0⟩ :=
  .act (h.randomInt hlt hfits)

/-- a draw from a small range -/
theorem Host.draw_few (h : Host l w s n) {low high : Int} (hlt : low < high) (hfew : (high - low).toNat < Nat.pow 2 53) :
    Yields spare expand (Prog.act (.randomInt s low high)) w fun (x : Int) v =>
      (low ≤ x ∧ x < high) ∧ Gains s n w v [] ⟨1, 0⟩ :=
  h.draw hlt (Rounding.toBits_fits hfew)

theorem Host.chance (h : Host l w s n) :
    Yields spare expand (Prog.act (.randomFraction s)) w fun _ v => Gains s n w v [] ⟨1, 0⟩ :=
  .act h.randomFraction

theorem Yields.ofExcept {Q : β → World α κ σ → Prop} {r : Except (Fault α) β} {b : β} (hr : r = .ok b) (h : Q b w) :
    Yields spare expand (Prog.ofExcept r) w Q := by
  subst hr
  exact .pure h

theorem Yields.ask {Q : β → World α κ σ → Prop} {f : World α κ σ → Except (Fault α) β} {b : β} (hf : f w = .ok b)
    (h : Q b w) : Yields spare expand (Prog.ask f) w Q := by
  refine ⟨b, w, ?_, h⟩
  simp only [Prog.ask, Prog.exec, hf]

/-- for each of a list of items something has been put up under `n`, in order, which `P` relates to its item and which
takes what its `bill` says -/
def GainsEach {ι : Type} (s : ShapeId) (n : NodeId) (node : γ → NodeId) (bill : γ → Bill) (P : World α κ σ → ι → γ → Prop)
    (items : List ι) (w v : World α κ σ) : Prop :=
  ∃ ys, Gains s n w v (ys.map node) (.total bill ys) ∧ List.Forall₂ (P v) items ys

/-- **Loops.** If each pass of a loop puts up what some items ask for, the loop puts up what all of them ask for. -/
theorem yields_gainsEach {ι : Type} {node : γ → NodeId} {bill : γ → Bill} {P : World α κ σ → ι → γ → Prop}
    (hP : ∀ w v i y, Upholds n w v → P w i y → P v i y) {f : β → Prog α κ σ Unit} {items : β → List ι} {bs : List β}
    (hstep : ∀ b ∈ bs, ∀ w, Host l w s n → Yields spare expand (f b) w fun _ v => GainsEach s n node bill P (items b) w v)
    (h : Host l w s n) : Yields spare expand (bs.forM f) w fun _ v =>
      GainsEach s n node bill P (bs.flatMap items) w v := by
  induction bs generalizing w with
  | nil => exact .pure ⟨[], .refl s n w, .nil⟩
  | cons b bs ih =>
    show Yields spare expand (f b >>= fun _ => bs.forM f) w _
    refine (hstep b List.mem_cons_self w h).bind fun _ v hv => ?_
    obtain ⟨ys, hys, hPys⟩ := hv
    have hhost := h.gains hys
    refine (ih (fun c hc => hstep c (List.mem_cons_of_mem b hc)) hhost).mono fun _ u hu => ?_
    obtain ⟨zs, hzs, hPzs⟩ := hu
    refine ⟨ys ++ zs, by rw [List.map_append, Bill.total_append]; exact hys.trans hzs, ?_⟩
    exact List.rel_append (hPys.imp fun i y => hP v u i y (hzs.upholds hhost.home)) hPzs

/-- the expansion of a kind of symbol, from what its rule comes to under any host -/
theorem expandsTo_of_yields {g : Grammar α κ σ} {depth : Nat} {kind : κ} {p : ShapeId → Prog α κ σ Unit}
    {Q : World α κ σ → NodeId → List NodeId → Bill → Prop} (hrule : ∀ s, g.rule kind s = p s)
    (stays : ∀ w v n made bill, Upholds n w v → Q w n made bill → Q v n made bill)
    (hp : ∀ w s n, Host l w s n →
      Yields g.spare (g.expandWithin depth) (p s) w fun _ v =>
        ∃ made bill, Gains s n w v made bill ∧ Q v n made bill) :
    ExpandsTo (g.expandWithin (depth + 1)) l kind Q where
  runs w s n h hkind := by
    obtain ⟨x, hx, rfl⟩ := Option.map_eq_some_iff.1 hkind
    obtain ⟨_, v, hv, made, bill, hm⟩ := hp w s n h
    refine ⟨v, made, bill, ?_, hm⟩
    simp only [Grammar.expandWithin, hx, hrule]
    exact hv
  stays := stays

end

end World

end SceneGrammar
