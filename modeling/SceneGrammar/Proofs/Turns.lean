/-
What one operation does to the lists of shapes.

The journal records who had which node come on its list (`trackedIn`), and a list is what was recorded since it was
emptied. An operation that ends nothing adds to lists what it records, and no more; what it makes is new, alive, and on
the list of its maker (`Brings`). A teardown records ends alone and empties lists, as `OnlyLoses` says (`Ends`). Which
operation does which is what `performs_brings` and `performs_ends` say, of any world in which shapes stand on their nodes.
-/
import SceneGrammar.Proofs.Orderly
import SceneGrammar.Proofs.Teardown.Loss

namespace SceneGrammar

variable {α κ σ β : Type}

/-- the node that comes on the list of a shape, by an entry -/
def Entry.trackedBy? (s : ShapeId) : Entry → Option NodeId
  | .tracked t n => if t = s then some n else none
  | _ => none

/-- the nodes that came on the list of a shape, in their order, by a record -/
def trackedIn (s : ShapeId) (es : List Entry) : List NodeId := es.filterMap (Entry.trackedBy? s)

/-- an entry of an expansion that begins or has ended -/
def Entry.framesRule : Entry → Bool
  | .began _ | .finished _ => true
  | _ => false

section

variable (s : ShapeId) (es fs : List Entry)

@[simp] theorem trackedIn_nil : trackedIn s [] = [] := rfl

@[simp] theorem trackedIn_append : trackedIn s (es ++ fs) = trackedIn s es ++ trackedIn s fs := List.filterMap_append

@[simp] theorem trackedIn_announced (dead : List NodeId) : trackedIn s (dead.map .announced) = [] := by
  simp [trackedIn, List.filterMap_map, Function.comp_def, Entry.trackedBy?]

theorem trackedIn_single (t : ShapeId) (n : NodeId) : trackedIn s [.tracked t n] = if t = s then [n] else [] := by
  by_cases h : t = s <;> simp [trackedIn, Entry.trackedBy?, h]

theorem trackedIn_made (t : ShapeId) (n : NodeId) (k : Nat) : trackedIn s (.made t n k :: es) = trackedIn s es := rfl

theorem mem_trackedIn {n : NodeId} : n ∈ trackedIn s es ↔ .tracked s n ∈ es := by
  rw [trackedIn, List.mem_filterMap]
  refine ⟨?_, fun h => ⟨_, h, by simp [Entry.trackedBy?]⟩⟩
  rintro ⟨e, he, h⟩
  cases e with
  | tracked t m =>
    obtain ⟨rfl, rfl⟩ : t = s ∧ m = n := by simpa [Entry.trackedBy?] using h
    exact he
  | _ => simp [Entry.trackedBy?] at h

theorem trackedIn_frames {es : List Entry} (h : ∀ e ∈ es, e.framesRule = true) : trackedIn s es = [] := by
  refine List.eq_nil_iff_forall_not_mem.2 fun n hn => ?_
  exact absurd (h _ ((mem_trackedIn s es).1 hn)) (by simp [Entry.framesRule])

end

namespace World

variable {w v u : World α κ σ} {es fs : List Entry}

/-- where a shape stands between expansions -/
def stateOf (w : World α κ σ) (s : ShapeId) : Option ShapeState := (w.shape? s).map (·.state)

/-! ## Moves that end nothing -/

/-- the journal goes on with `es`, and nothing that was dead comes to life -/
structure Onward (w v : World α κ σ) (es : List Entry) : Prop where
  journal : v.journal.toList = w.journal.toList ++ es
  size : w.nodes.size ≤ v.nodes.size
  gone : ∀ m ≤ w.nodes.size, v.isAlive m = true → w.isAlive m = true

theorem Onward.refl (w : World α κ σ) : Onward w w [] := ⟨(List.append_nil _).symm, le_rfl, fun _ _ => id⟩

theorem Onward.trans (h : Onward w v es) (i : Onward v u fs) : Onward w u (es ++ fs) where
  journal := by rw [i.journal, h.journal, List.append_assoc]
  size := h.size.trans i.size
  gone m hm hl := h.gone m hm (i.gone m (hm.trans h.size) hl)

/-- nothing ends, and lists grow by what is recorded; what is made is new, alive, and on the list of its maker -/
structure Brings (w v : World α κ σ) (es : List Entry) : Prop extends Onward w v es where
  alive : ∀ m, w.isAlive m = true → v.isAlive m = true
  homes : ∀ s n, w.homeOf s = some n → v.homeOf s = some n
  home_iff : (∀ s n, w.homeOf s = some n ↔ w.shapeOn? n = some s) → ∀ s n, v.homeOf s = some n ↔ v.shapeOn? n = some s
  list : ∀ s, v.generatedBy s = w.generatedBy s ++ trackedIn s es
  listed : ∀ s m, .tracked s m ∈ es → m ≤ v.nodes.size
  expanded : ∀ s, w.stateOf s = some .expanded → v.stateOf s = some .expanded
  made : ∀ s first count, .made s first count ∈ es →
    .tracked s first ∈ es ∧ v.isAlive first = true ∧ w.nodes.size < first

theorem Brings.trans (h : Brings w v es) (i : Brings v u fs) : Brings w u (es ++ fs) where
  toOnward := h.toOnward.trans i.toOnward
  alive m hm := i.alive m (h.alive m hm)
  homes s n hn := i.homes s n (h.homes s n hn)
  home_iff hw := i.home_iff (h.home_iff hw)
  list s := by rw [i.list, h.list, trackedIn_append, List.append_assoc]
  listed s m hm := (List.mem_append.1 hm).elim (fun hm => (h.listed s m hm).trans i.size) (i.listed s m)
  expanded s hs := i.expanded s (h.expanded s hs)
  made s first count hm := by
    rcases List.mem_append.1 hm with hm | hm
    · obtain ⟨ht, hl, hlt⟩ := h.made s first count hm
      exact ⟨List.mem_append_left _ ht, i.alive first hl, hlt⟩
    · obtain ⟨ht, hl, hlt⟩ := i.made s first count hm
      exact ⟨List.mem_append_right _ ht, hl, h.size.trans_lt hlt⟩

/-- nodes are hung elsewhere at most, shapes keep their places and lists, and rules begin or end -/
theorem brings_of_alike (hj : v.journal.toList = w.journal.toList ++ es) (he : ∀ e ∈ es, e.framesRule = true)
    (hsize : v.nodes.size = w.nodes.size) (halive : ∀ m, v.isAlive m = w.isAlive m)
    (hon : ∀ m, v.shapeOn? m = w.shapeOn? m) (hhome : ∀ s, v.homeOf s = w.homeOf s)
    (hlist : ∀ s, v.generatedBy s = w.generatedBy s)
    (hstate : ∀ s, w.stateOf s = some .expanded → v.stateOf s = some .expanded) : Brings w v es where
  journal := hj
  size := hsize.ge
  alive m hm := (halive m).trans hm
  gone m _ hm := (halive m).symm.trans hm
  homes s n hn := (hhome s).trans hn
  home_iff hw s n := by rw [hhome, hon, hw]
  list s := by rw [hlist, trackedIn_frames s he, List.append_nil]
  listed s m hm := absurd (he _ hm) (by simp [Entry.framesRule])
  expanded := hstate
  made s first count hm := absurd (he _ hm) (by simp [Entry.framesRule])

/-- neither nodes nor shapes change -/
theorem brings_of_eq (hj : v.journal.toList = w.journal.toList ++ es) (he : ∀ e ∈ es, e.framesRule = true)
    (hn : v.nodes = w.nodes) (hs : v.shapes = w.shapes) : Brings w v es := by
  have hshape (s : ShapeId) : v.shape? s = w.shape? s := by rw [shape?, hs, shape?]
  refine brings_of_alike hj he (by rw [hn]) (fun m => ?_) (fun m => ?_) (fun s => ?_) (fun s => ?_) fun s hx => ?_
  · rw [isAlive, node?_congr hn, isAlive]
  · rw [shapeOn?, node?_congr hn, shapeOn?]
  · rw [homeOf, hshape, homeOf]
  · rw [generatedBy, hshape, generatedBy]
  · rwa [stateOf, hshape]

theorem Brings.refl (w : World α κ σ) : Brings w w [] := brings_of_eq (by simp) (by simp) rfl rfl

/-- something changes about a shape, but for its place and its list -/
theorem brings_modifyShape {f : Shape α κ → Shape α κ} (hn : ∀ x, (f x).node = x.node)
    (hg : ∀ x, (f x).generated = x.generated) (hs : ∀ x, x.state = .expanded → (f x).state = .expanded)
    (w : World α κ σ) (s : ShapeId) : Brings w (w.modifyShape s f) [] := by
  refine brings_of_alike (by simp [modifyShape]) (by simp) rfl (fun _ => rfl) (fun _ => rfl)
    (homeOf_modifyShape hn w s) (fun t => ?_) fun t ht => ?_
  · rw [generatedBy, shape?_modifyShape, generatedBy]
    split_ifs
    · cases w.shape? t <;> simp [hg]
    · rfl
  · rw [stateOf, Option.map_eq_some_iff] at ht
    obtain ⟨x, hx, hxs⟩ := ht
    rw [stateOf, shape?_modifyShape, hx]
    split_ifs
    · exact congrArg some (hs x hxs)
    · exact congrArg some hxs

theorem brings_markExpanded (w : World α κ σ) (s : ShapeId) : Brings w (w.markExpanded s) [.began s] := by
  have hmark := brings_modifyShape (f := fun x : Shape α κ => { x with state := .expanded }) (fun _ => rfl) (fun _ => rfl)
    (fun _ _ => rfl) w s
  exact hmark.trans (brings_of_eq (by simp [markExpanded, note]) (by simp [Entry.framesRule]) rfl rfl)

theorem brings_reparent (w : World α κ σ) (n : NodeId) (parent : Option NodeId) : Brings w (w.reparent n parent) [] := by
  have hdetach : Brings w (w.detach n) [] := by
    refine brings_of_alike (by rw [detach_eq]; simp) (by simp) (size_detach w n) (fun m => ?_) (fun m => ?_)
      (fun s => by rw [detach_eq]; rfl) (fun s => by rw [detach_eq]; rfl) fun s hs => by rw [detach_eq]; exact hs
    · rw [isAlive, node?_detach, isAlive]
      cases w.node? m <;> rfl
    · rw [shapeOn?, node?_detach, shapeOn?]
      cases w.node? m <;> rfl
  have hhang (v : World α κ σ) (p : NodeId) : Brings v (v.hang n p) [] := by
    refine brings_of_alike (by rw [hang_eq]; simp) (by simp) (size_hang v n p) (fun m => ?_) (fun m => ?_)
      (fun s => by rw [hang_eq]; rfl) (fun s => by rw [hang_eq]; rfl) fun s hs => by rw [hang_eq]; exact hs
    · rw [isAlive, node?_hang, isAlive]
      cases v.node? m <;> rfl
    · rw [shapeOn?, node?_hang, shapeOn?]
      cases v.node? m <;> rfl
  cases parent with
  | none => exact hdetach
  | some p => exact hdetach.trans (hhang _ p)

theorem brings_addShape (w : World α κ σ) (kind : κ) : Brings w (w.addShape kind) [] := by
  have hnone : w.shape? w.shapes.size = none := shape?_eq_none_iff.2 le_rfl
  refine brings_of_alike (by simp [addShape]) (by simp) rfl (fun _ => rfl) (fun _ => rfl) (fun s => ?_) (fun s => ?_)
    fun s hs => ?_
  · rw [homeOf, shape?_addShape, homeOf]
    split_ifs with h
    · simp [h, hnone]
    · rfl
  · rw [generatedBy, shape?_addShape, generatedBy]
    split_ifs with h
    · simp [h, hnone]
    · rfl
  · rw [stateOf, shape?_addShape]
    split_ifs with h
    · simp [h, stateOf, hnone] at hs
    · exact hs

/-! ### Nodes -/

theorem Planted.onward {parent : Option NodeId} {count : Nat} (h : Planted w v parent count) : Onward w v [] where
  journal := by
    rw [h.rest]
    simp
  size := h.size ▸ Nat.le_add_right _ _
  gone m hm hl := by
    obtain ⟨x, hx, hxl⟩ := isAlive_iff.1 hl
    cases hw : w.node? m with
    | none =>
      rcases node?_eq_none_iff.1 hw with rfl | hlt
      · simp [node?] at hx
      · exact absurd hm (not_le.2 hlt)
    | some y =>
      obtain ⟨z, hz, -, -, hzl⟩ := h.steps.later.kept m y hw
      rw [hx, Option.some.injEq] at hz
      exact isAlive_iff.2 ⟨y, hw, hzl (hz ▸ hxl)⟩

theorem Planted.shapeOn? {parent : Option NodeId} {count : Nat} (h : Planted w v parent count) (n : NodeId) :
    v.shapeOn? n = w.shapeOn? n := by
  by_cases hm : n ≤ w.nodes.size
  · exact (h.links n hm).2
  have hnone : w.shapeOn? n = none := by
    rw [World.shapeOn?, node?_of_size_lt (not_le.1 hm)]
    rfl
  rw [hnone]
  by_cases hv : n ≤ v.nodes.size
  · exact h.bare n (not_le.1 hm) hv
  · rw [World.shapeOn?, node?_of_size_lt (not_le.1 hv)]
    rfl

/-- nodes come that carry no shapes -/
theorem Planted.brings {parent : Option NodeId} {count : Nat} (h : Planted w v parent count) : Brings w v [] := by
  have hshape (s : ShapeId) : v.shape? s = w.shape? s := by rw [h.rest]; rfl
  have hhome (s : ShapeId) : v.homeOf s = w.homeOf s := by rw [homeOf, hshape, homeOf]
  exact {
    toOnward := h.onward
    alive := h.kept
    homes := fun s n hn => (hhome s).trans hn
    home_iff := fun hw s n => by rw [hhome, h.shapeOn?, hw]
    list := fun s => by rw [generatedBy, hshape, trackedIn_nil, List.append_nil, generatedBy]
    listed := by simp
    expanded := fun s hs => by rwa [stateOf, hshape]
    made := by simp }

/-- a symbol comes; nobody has it on a list yet -/
theorem brings_seat (kind : κ) (name : String) {parent : Option NodeId} (pose : Pose α) (rootKey : Option NodeId)
    (hp : ∀ p, parent = some p → w.isAlive p = true) : Brings w (w.seat kind name parent pose rootKey) [] := by
  have a := adds_seat w kind name parent pose rootKey hp
  exact {
    journal := by rw [journal_seat, List.append_nil]
    size := a.size ▸ Nat.le_succ _
    gone := fun m hm hl => ((a.isAlive m).1 hl).resolve_left (nextId_ne hm)
    alive := fun m hm => (a.isAlive m).2 (Or.inr hm)
    homes := fun s n hn => by
      rw [homeOf_seat, if_neg (lt_size_of_homeOf hn).ne]
      exact hn
    home_iff := seat_home_iff w kind name parent pose rootKey hp
    list := fun s => by rw [generatedBy_seat, trackedIn_nil, List.append_nil]
    listed := by simp
    expanded := fun s hs => by
      obtain ⟨x, hx, -⟩ := Option.map_eq_some_iff.1 hs
      rw [stateOf, shape?_seat, if_neg (lt_size_of_shape? hx).ne]
      exact hs
    made := by simp }

/-- a node that is there comes on a list -/
theorem brings_track {s : ShapeId} {n : NodeId} (hs : s < w.shapes.size) (hn : n ≤ w.nodes.size) :
    Brings w (w.track s n) [.tracked s n] := by
  have e := sameScene_track w s n
  exact {
    journal := by simp [track, note, modifyShape]
    size := le_rfl
    gone := fun m _ hm => (e.isAlive m).symm.trans hm
    alive := fun m hm => (e.isAlive m).trans hm
    homes := fun t m hm => (e.home t).trans hm
    home_iff := fun hw t m => by rw [e.home, e.shapeOn?, hw]
    list := fun t => by
      rw [generatedBy_track w s t n hs, trackedIn_single]
      by_cases ht : t = s
      · simp [ht]
      · simp [ht, Ne.symm ht]
    listed := fun t m hm => by
      obtain ⟨-, rfl⟩ : t = s ∧ m = n := by simpa using hm
      exact hn
    expanded := fun t ht => by
      rw [stateOf, Option.map_eq_some_iff] at ht
      obtain ⟨x, hx, hxs⟩ := ht
      rw [stateOf, shape?_track, hx]
      exact congrArg some hxs
    made := by simp }

/-- new nodes are entered as made, and the first one comes on the list of its maker -/
theorem Brings.take (h : Brings w v []) {creator : ShapeId} {first : NodeId} (hc : creator < v.shapes.size)
    (hlt : w.nodes.size < first) (hl : v.isAlive first = true) (count : Nat) :
    Brings w (v.take creator first count) [.made creator first count, .tracked creator first] := by
  have ht : Brings (v.note (.made creator first count)) (v.take creator first count) [.tracked creator first] :=
    brings_track (w := v.note _) hc (le_size_of_isAlive hl)
  have hnote : Onward v (v.note (.made creator first count)) [.made creator first count] :=
    ⟨by simp [note], le_rfl, fun _ _ => id⟩
  exact {
    toOnward := h.toOnward.trans (hnote.trans ht.toOnward)
    alive := fun m hm => ht.alive m (h.alive m hm)
    homes := fun s n hn => ht.homes s n (h.homes s n hn)
    home_iff := fun hw => ht.home_iff (h.home_iff hw)
    list := fun s => by
      have hlist : v.generatedBy s = w.generatedBy s := (h.list s).trans (List.append_nil _)
      rw [ht.list, trackedIn_made]
      exact congrArg (· ++ _) hlist
    listed := fun s m hm => ht.listed s m (by simpa using hm)
    expanded := fun s hs => ht.expanded s (h.expanded s hs)
    made := fun s f k hm => by
      obtain ⟨rfl, rfl, rfl⟩ : s = creator ∧ f = first ∧ k = count := by simpa using hm
      exact ⟨by simp, ht.alive f hl, hlt⟩ }

/-! ### Operations -/

variable [SymbolKind κ]

theorem brings_placeSymbol (hw : ∀ s n, w.homeOf s = some n → w.shapeOn? n = some s) {parent : Option NodeId}
    (hk : w.knows parent = true) (creator : ShapeId) (offer : KindOffer κ) (name : String) (pose : Pose α) :
    ∃ es, Brings w ((placeSymbol creator offer name parent pose).after w) es := by
  rcases placeSymbol_cases creator offer name parent pose w with ⟨e, hr⟩ | ⟨own, key, kind, ho, -, -, hp, hr⟩
  · exact ⟨[], by rw [Act.after_error hr]; exact .refl w⟩
  have hpar := mem_alive_of_parentFault? hp (knows_getD (hw creator own ho) hk)
  have a := adds_seat w kind name (some (parent.getD own)) pose (some key) hpar
  have hcreator : creator < (w.seat kind name (some (parent.getD own)) pose (some key)).shapes.size := by
    rw [size_seat]
    exact (lt_size_of_homeOf ho).trans (Nat.lt_succ_self _)
  rw [Act.after_ok hr]
  exact ⟨_, (brings_seat kind name pose (some key) hpar).take hcreator (Nat.lt_succ_self _)
    ((a.isAlive w.nextId).2 (Or.inl rfl)) 1⟩

omit [SymbolKind κ] in
theorem brings_createRoot {parent : Option NodeId} (hk : w.knows parent = true) (offer : KindOffer κ) (name : String)
    (pose : Pose α) (source : Option SourceId) : Brings w ((createRoot offer name parent pose source).after w) [] := by
  rcases createRoot_cases offer name parent pose source w with ⟨e, hr⟩ | ⟨kind, -, hp, hr⟩
  · rw [Act.after_error hr]
    exact .refl w
  · rw [Act.after_ok hr]
    exact (brings_seat kind name pose none (mem_alive_of_parentFault? hp hk)).trans (brings_modifyShape
      (f := fun x => { x with components := x.components ++ source.toList.map .source }) (fun _ => rfl) (fun _ => rfl)
      (fun _ => id) _ _)

variable [Scalar α]

theorem brings_spawn (hw : ∀ s n, w.homeOf s = some n → w.shapeOn? n = some s) {parent : Option NodeId}
    (hk : w.knows parent = true) (creator : ShapeId) (template : TemplateRef α) (pose : Pose α) :
    ∃ es, Brings w ((spawn creator template parent pose).after w) es := by
  rcases spawn_cases creator template parent pose w with ⟨e, hr⟩ | ⟨own, t, ho, -, hp, hr⟩
  · exact ⟨[], by rw [Act.after_error hr]; exact .refl w⟩
  have hplant := planted_plant t w (some (parent.getD own)) pose
    (mem_alive_of_parentFault? hp (knows_getD (hw creator own ho) hk))
  rw [Act.after_ok hr]
  refine ⟨_, hplant.brings.take ?_ (Nat.lt_succ_self _) (hplant.alive _ (Nat.lt_succ_self _) ?_) t.size⟩
  · rw [hplant.rest]
    exact lt_size_of_homeOf ho
  · rw [hplant.size]
    exact Nat.add_le_add_left t.size_pos _

end World

/-- the shapes whose lists an operation is asked to empty, if it is a teardown -/
def Op.emptied? : Op α κ σ → Option (List ShapeId)
  | .destroy _ | .clearScene | .clear => some []
  | .deleteGenerated s => some [s]
  | _ => none

namespace World

variable {w v u : World α κ σ} [Scalar α] [SymbolKind κ]

/-- **What comes.** An operation that runs no rules and is no teardown ends nothing. -/
theorem performs_brings (hw : ∀ s n, w.homeOf s = some n → w.shapeOn? n = some s) {o : Op α κ σ}
    (ho : o.isPlain = true) (hp : w.names o = true) (hf : o.emptied? = none) : ∃ es, Brings w ((does o).after w) es := by
  cases o with
  | createSymbol | expand | generate | advance => cases ho
  | destroy | clearScene | clear | deleteGenerated => cases hf
  | bind => cases hp
  | createNode name parent pose =>
    refine ⟨[], show Brings w ((World.createNode name parent pose).after w) [] from ?_⟩
    rcases createNode_cases name parent pose w with ⟨e, hr⟩ | ⟨hfault, hr⟩
    · rw [Act.after_error hr]
      exact .refl w
    · rw [Act.after_ok hr]
      exact (planted_addNode name .empty pose none (mem_alive_of_parentFault? hfault hp)).brings
  | instantiate t parent pose =>
    refine ⟨[], show Brings w ((World.instantiate t parent pose).after w) [] from ?_⟩
    rcases instantiate_cases t parent pose w with ⟨e, hr⟩ | ⟨hfault, hr⟩
    · rw [Act.after_error hr]
      exact .refl w
    · rw [Act.after_ok hr]
      exact (planted_plant t w parent pose (mem_alive_of_parentFault? hfault hp)).brings
  | reparent n parent => exact ⟨[], brings_reparent w n parent⟩
  | newShape kind => exact ⟨[], brings_addShape w kind⟩
  | createRoot offer name parent pose source => exact ⟨[], brings_createRoot hp offer name pose source⟩
  | spawn creator template parent pose => exact brings_spawn hw hp creator template pose
  | track s n =>
    simp only [names, Bool.and_eq_true, Option.isSome_iff_exists] at hp
    obtain ⟨⟨x, hx⟩, y, hy⟩ := hp
    exact ⟨_, brings_track (lt_size_of_shape? hx) (le_size_of_node? hy).2⟩
  | setKind s kind =>
    exact ⟨[], brings_modifyShape (f := fun x => { x with kind }) (fun _ => rfl) (fun _ => rfl) (fun _ => id) w s⟩
  | setComponents s cs =>
    exact ⟨[], brings_modifyShape (f := fun x => { x with components := cs }) (fun _ => rfl) (fun _ => rfl)
      (fun _ => id) w s⟩
  | reseed i seed =>
    refine ⟨[], show Brings w ((World.reseed i seed).after w) [] from ?_⟩
    rcases reseed_after w i seed with h | ⟨r, e, h⟩ <;> rw [h] <;> exact brings_of_eq (by simp [setSource]) (by simp) rfl rfl
  | randomInt s low high =>
    refine ⟨[], show Brings w ((World.randomInt s low high).after w) [] from ?_⟩
    rcases randomInt_after w s low high with h | ⟨i, r, e, -, h⟩ <;> rw [h] <;>
      exact brings_of_eq (by simp [setSource]) (by simp) rfl rfl
  | randomFraction s =>
    refine ⟨[], show Brings w ((World.randomFraction s).after w) [] from ?_⟩
    rcases randomFraction_after w s with h | ⟨i, r, e, -, h⟩ <;> rw [h] <;>
      exact brings_of_eq (by simp [setSource]) (by simp) rfl rfl
  | schedule s delay =>
    refine ⟨[], show Brings w ((World.schedule s delay).after w) [] from ?_⟩
    rcases schedule_cases w s delay with h | ⟨n, -, h⟩ <;> rw [h] <;> exact brings_of_eq (by simp) (by simp) rfl rfl
  | _ => exact ⟨[], brings_of_eq (List.append_nil _).symm (by simp) rfl rfl⟩

end World

/-! ## Teardowns -/

namespace World

variable {w v u : World α κ σ} {t r : List ShapeId}

/-- nothing is gained, and nothing but ends is recorded -/
structure Ends (w v : World α κ σ) (tops : List ShapeId) : Prop extends OnlyLoses w v tops where
  journal : ∃ dead : List NodeId, v.journal.toList = w.journal.toList ++ dead.map .announced

theorem Ends.refl (w : World α κ σ) (tops : List ShapeId) : Ends w w tops := ⟨.refl w tops, [], by simp⟩

theorem Ends.trans (h : Ends w v t) (i : Ends v u r) : Ends w u (t ++ r) := by
  obtain ⟨d, hd⟩ := h.journal
  obtain ⟨e, he⟩ := i.journal
  exact ⟨h.toOnlyLoses.trans i.toOnlyLoses, d ++ e, by rw [he, hd, List.map_append, List.append_assoc]⟩

theorem Ends.onward (e : Ends w v t) : ∃ dead : List NodeId, Onward w v (dead.map .announced) := by
  obtain ⟨dead, hdead⟩ := e.journal
  exact ⟨dead, hdead, e.sizes.1.ge, fun m _ => e.alive m⟩

theorem ends_destroy (w : World α κ σ) (n : NodeId) : Ends w ((destroy n).after w) [] := by
  obtain ⟨dead, h⟩ := (onlyCancels_within w.teardownBound).1 w n
  rw [after_destroy]
  exact ⟨((onlyLoses_within w.teardownBound).1 w n).1, dead, h.journal⟩

theorem ends_destroyAll (ns : List NodeId) (w : World α κ σ) : Ends w ((destroyAll ns).after w) [] :=
  destroyAll_leads (R := fun w v => Ends w v []) (fun w => .refl w []) .trans (fun n w => ends_destroy w n) ns w

theorem ends_clear (w : World α κ σ) : Ends w (clear.after w) [] := by
  have hagenda : Ends w (w.rebook w.agenda.clear) [] := ⟨onlyLoses_of_eq rfl rfl, [], by simp⟩
  have hscene : Ends w (clearScene.after (w.rebook w.agenda.clear)) [] :=
    hagenda.trans (ends_destroyAll (w.rebook w.agenda.clear).roots _)
  rw [show clear.after w = sweep.after (w.rebook w.agenda.clear) from rfl]
  unfold Act.after sweep
  cases hr : clearScene (w.rebook w.agenda.clear) with
  | error e v => exact Act.after_error hr ▸ hscene
  | ok _ v => exact (Act.after_ok hr ▸ hscene).trans ⟨onlyLoses_of_eq rfl rfl, [], by simp⟩

theorem ends_deleteGenerated [SymbolKind κ] (w : World α κ σ) (s : ShapeId) :
    Ends w ((deleteGenerated s).after w) [s] := by
  rcases deleteGenerated_after w s with hs | hs <;> rw [hs]
  · exact .refl w [s]
  · obtain ⟨dead, h⟩ := (onlyCancels_within w.teardownBound).2 w s
    exact ⟨(onlyLoses_within w.teardownBound).2 w s, dead, h.journal⟩

/-- **What ends.** A teardown gains nothing, and records ends alone. -/
theorem performs_ends [Scalar α] [SymbolKind κ] {o : Op α κ σ} (hf : o.emptied? = some t) :
    Ends w ((does o).after w) t := by
  cases o with
  | destroy n =>
    obtain rfl : [] = t := Option.some.inj hf
    exact ends_destroy w n
  | clearScene =>
    obtain rfl : [] = t := Option.some.inj hf
    exact ends_destroyAll w.roots w
  | clear =>
    obtain rfl : [] = t := Option.some.inj hf
    exact ends_clear w
  | deleteGenerated s =>
    obtain rfl : [s] = t := Option.some.inj hf
    exact ends_deleteGenerated w s
  | _ => cases hf

theorem OnlyLoses.homeOf (h : OnlyLoses w v t) (s : ShapeId) : v.homeOf s = w.homeOf s := by
  rcases h.shape s with hs | ⟨hs, -⟩
  · rw [World.homeOf, hs, World.homeOf]
  · rw [World.homeOf, hs, World.homeOf]
    cases w.shape? s <;> rfl

/-- a list is as it was, or it was emptied for a shape of `tops`, or for one whose node has died -/
theorem OnlyLoses.generatedBy (h : OnlyLoses w v t) (s : ShapeId) : v.generatedBy s = w.generatedBy s ∨
    v.generatedBy s = [] ∧ (s ∈ t ∨ ∃ m, w.shapeOn? m = some s ∧ w.isAlive m = true ∧ ¬ v.isAlive m = true) := by
  rcases h.shape s with hs | ⟨hs, hor⟩
  · left
    rw [World.generatedBy, hs, World.generatedBy]
  · refine Or.inr ⟨?_, hor⟩
    rw [World.generatedBy, hs]
    cases w.shape? s <;> rfl

end World

end SceneGrammar
