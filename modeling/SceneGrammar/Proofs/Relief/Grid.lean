/-
Height maps cell by cell.

`m.Charts width height f` says that `m` has a size and that the height of each of its cells is the value of `f` there. What
is said of a map is then said of a function on the cells of a grid, without a word on positions in a list: a map is built
from a chart (`build_charts`), changed value by value (`Charts.mapM`), merged with another one (`Charts.zipWith`), and its
list of values is the image of the grid (`Charts.mem_values`).
-/
import Mathlib.Data.Set.Prod
import Mathlib.Tactic
import SceneGrammar.Relief.HeightMap

namespace SceneGrammar

/-- the cells of a map of a size -/
def grid (width height : Nat) : Set (Nat × Nat) := {c | c.1 < width ∧ c.2 < height}

theorem ofFnM_ok {ε β : Type} {n : Nat} {f : Fin n → Except ε β} {g : Fin n → β} (h : ∀ i, f i = .ok (g i)) :
    Vector.ofFnM f = .ok (Vector.ofFn g) := by
  obtain rfl : f = fun i => Pure.pure (g i) := funext h
  exact Vector.ofFnM_pure

/-- a row of computations ends with the error of one of them, or there is none -/
theorem ofFnM_cases {ε β : Type} : ∀ {n : Nat} (f : Fin n → Except ε β),
    (∃ i e, f i = .error e ∧ Vector.ofFnM f = .error e) ∨ ∀ i, ∃ b, f i = .ok b
  | 0, _ => .inr fun i => i.elim0
  | n + 1, f => by
    rw [Vector.ofFnM_succ]
    rcases ofFnM_cases fun i : Fin n => f i.castSucc with ⟨i, e, hi, hrow⟩ | hall
    · exact .inl ⟨i.castSucc, e, hi, by rw [hrow]; rfl⟩
    · choose b hb using hall
      have hrow := ofFnM_ok hb
      cases hlast : f (Fin.last n) with
      | error e => exact .inl ⟨Fin.last n, e, hlast, by rw [hrow]; rfl⟩
      | ok last => exact .inr fun i => Fin.lastCases ⟨last, hlast⟩ (fun j => ⟨b j, hb j⟩) i

namespace HeightMap

variable {α β γ ε : Type}

/-- a map of a size whose heights are the values of a function -/
structure Charts (m : HeightMap α) (width height : Nat) (f : Nat × Nat → α) : Prop where
  width_eq : m.width = width
  height_eq : m.height = height
  cell_eq : ∀ x y (hx : x < m.width) (hy : y < m.height), m.cell x y hx hy = f (x, y)

theorem mod_of_lt {x y n : Nat} (hx : x < n) : (y * n + x) % n = x := by
  rw [Nat.add_comm, Nat.add_mul_mod_self_right, Nat.mod_eq_of_lt hx]

theorem div_of_lt {x y n : Nat} (hx : x < n) : (y * n + x) / n = y := by
  rw [Nat.add_comm, Nat.add_mul_div_right _ _ (Nat.zero_lt_of_lt hx), Nat.div_eq_of_lt hx, Nat.zero_add]

/-! ## Building -/

section

variable {width height : Int} (hw : 0 < width) (hh : 0 < height)

include hw hh

/-- a map that would have too many cells is not made -/
theorem build_tooMany (hcells : 2 ^ 63 ≤ width * height) (f : Nat → Nat → Except ReliefError α) :
    build width height f = .error .tooManyCells :=
  (dif_pos ⟨hw, hh⟩).trans (if_pos hcells)

theorem build_eq (hcells : width * height < 2 ^ 63) (f : Nat → Nat → Except ReliefError α) :
    build width height f = (Vector.ofFnM fun i : Fin (width.toNat * height.toNat) =>
      f (i.val % width.toNat) (i.val / width.toNat)).bind fun cells => .ok
        { width := width.toNat, height := height.toNat, cells := cells.toArray
          width_pos := by omega, height_pos := by omega, cells_size := by simp } :=
  (dif_pos ⟨hw, hh⟩).trans (if_neg (not_le.2 hcells))

/-- a map whose cells can all be computed is made of them -/
theorem build_charts (hcells : width * height < 2 ^ 63) {f : Nat → Nat → Except ReliefError α} {g : Nat × Nat → α}
    (hf : ∀ c ∈ grid width.toNat height.toNat, f c.1 c.2 = .ok (g c)) :
    ∃ m, build width height f = .ok m ∧ m.Charts width.toNat height.toNat g := by
  have hpos : 0 < width.toNat := by omega
  have hrow := ofFnM_ok fun i : Fin (width.toNat * height.toNat) =>
    hf (i.val % width.toNat, i.val / width.toNat) ⟨Nat.mod_lt _ hpos, Nat.div_lt_of_lt_mul i.isLt⟩
  rw [build_eq hw hh hcells, hrow]
  refine ⟨_, rfl, rfl, rfl, fun x y hx hy => ?_⟩
  simp only [cell, index, Vector.getElem_toArray, Vector.getElem_ofFn]
  rw [mod_of_lt hx, div_of_lt hx]

/-- a map has too many cells, or one that cannot be computed, or it is made -/
theorem build_cases (f : Nat → Nat → Except ReliefError α) :
    2 ^ 63 ≤ width * height ∧ build width height f = .error .tooManyCells ∨
    width * height < 2 ^ 63 ∧
      ((∃ c ∈ grid width.toNat height.toNat, ∃ e, f c.1 c.2 = .error e ∧ build width height f = .error e) ∨
      ∃ g m, (∀ c ∈ grid width.toNat height.toNat, f c.1 c.2 = .ok (g c)) ∧ build width height f = .ok m ∧
        m.Charts width.toNat height.toNat g) := by
  have hpos : 0 < width.toNat := by omega
  rcases le_or_gt (2 ^ 63) (width * height) with hmany | hfew
  · exact .inl ⟨hmany, build_tooMany hw hh hmany f⟩
  refine .inr ⟨hfew, ?_⟩
  rcases ofFnM_cases fun i : Fin (width.toNat * height.toNat) => f (i.val % width.toNat) (i.val / width.toNat) with
    ⟨i, e, hi, hrow⟩ | hall
  · refine .inl ⟨(_, _), ⟨Nat.mod_lt _ hpos, Nat.div_lt_of_lt_mul i.isLt⟩, e, hi, ?_⟩
    rw [build_eq hw hh hfew, hrow]
    rfl
  · have hcell (c : Nat × Nat) (hc : c ∈ grid width.toNat height.toNat) : ∃ a, f c.1 c.2 = .ok a := by
      have hlt : c.2 * width.toNat + c.1 < width.toNat * height.toNat := by
        calc c.2 * width.toNat + c.1 < c.2 * width.toNat + width.toNat := Nat.add_lt_add_left hc.1 _
          _ = width.toNat * (c.2 + 1) := by ring
          _ ≤ width.toNat * height.toNat := Nat.mul_le_mul_left _ hc.2
      simpa only [mod_of_lt hc.1, div_of_lt hc.1] using hall ⟨c.2 * width.toNat + c.1, hlt⟩
    have : Nonempty α := (hcell (0, 0) ⟨hpos, by omega⟩).nonempty
    choose! g hg using hcell
    obtain ⟨m, hm, hcharts⟩ := build_charts hw hh hfew hg
    exact .inr ⟨g, m, hg, hm, hcharts⟩

end

/-! ## Changing -/

variable {m : HeightMap α} {width height : Nat} {f : Nat × Nat → α}

theorem Charts.congr (h : m.Charts width height f) {g : Nat × Nat → α} (hg : ∀ c ∈ grid width height, f c = g c) :
    m.Charts width height g where
  width_eq := h.width_eq
  height_eq := h.height_eq
  cell_eq x y hx hy := (h.cell_eq x y hx hy).trans (hg (x, y) ⟨h.width_eq ▸ hx, h.height_eq ▸ hy⟩)

theorem Charts.mapM (h : m.Charts width height f) {φ : α → Except ε β} {g : α → β} (hφ : ∀ a, φ a = .ok (g a)) :
    ∃ n, m.mapM φ = .ok n ∧ n.Charts width height fun c => g (f c) := by
  obtain rfl : φ = fun a => Pure.pure (g a) := funext hφ
  unfold HeightMap.mapM
  rw [Vector.mapM_pure]
  refine ⟨_, rfl, h.width_eq, h.height_eq, fun x y hx hy => ?_⟩
  rw [← h.cell_eq x y hx hy]
  simp [cell, index]

theorem Charts.zipWith {n : HeightMap β} {g : Nat × Nat → β} (h : m.Charts width height f)
    (hn : n.Charts width height g) (φ : α → β → γ) (hsize : m.width = n.width ∧ m.height = n.height) :
    (m.zipWith φ n hsize).Charts width height fun c => φ (f c) (g c) where
  width_eq := h.width_eq
  height_eq := h.height_eq
  cell_eq x y hx hy := by
    rw [← h.cell_eq x y hx hy, ← hn.cell_eq x y (hsize.1 ▸ hx) (hsize.2 ▸ hy)]
    simp [cell, index, HeightMap.zipWith, hsize.1]

/-! ## Values -/

theorem Charts.grid_nonempty (h : m.Charts width height f) : (0, 0) ∈ grid width height :=
  ⟨h.width_eq ▸ m.width_pos, h.height_eq ▸ m.height_pos⟩

/-- the values of a map are those on the grid -/
theorem Charts.mem_values (h : m.Charts width height f) {a : α} : a ∈ m.values ↔ a ∈ f '' grid width height := by
  obtain rfl := h.width_eq
  obtain rfl := h.height_eq
  unfold values
  rw [Array.mem_toList_iff, Array.mem_iff_getElem]
  constructor
  · rintro ⟨i, hi, rfl⟩
    have hi' : i < m.width * m.height := m.cells_size ▸ hi
    have hx : i % m.width < m.width := Nat.mod_lt _ m.width_pos
    have hy : i / m.width < m.height := Nat.div_lt_of_lt_mul hi'
    refine ⟨(i % m.width, i / m.width), ⟨hx, hy⟩, ?_⟩
    rw [← h.cell_eq _ _ hx hy]
    simp only [cell, index, Nat.div_add_mod']
  · rintro ⟨⟨x, y⟩, ⟨hx, hy⟩, rfl⟩
    exact ⟨m.index x y, m.index_lt hx hy, h.cell_eq x y hx hy⟩

end HeightMap

end SceneGrammar
