/-
Height maps as grids of cells.

A map keeps its values in one list, row after row. Its cells and the positions of that list correspond one to one
(`position_bijOn`), and the rows are the pieces of the list (`rows_flatten`). A write changes one cell or, beside the map,
none (`Charts.write`), so after a run of writes each cell holds what was written there last (`Charts.foldl_write`).

Over the rationals a point is sampled in the column and the row that it lies in, and beside the map in the nearest ones
(`Under`). The product of coordinate and size is cut off toward zero and then moved into the axis; both take a negative
one to the first cell, so the cut does not matter there (`under_snap`).

- `faithful_grid`: what a map of any size holds after any run of writes, where it is read, how it is written, and in which
  of its cells it is sampled.
-/
import Mathlib.Data.Set.Function
import SceneGrammar.Proofs.Exact
import SceneGrammar.Proofs.Relief.Grid

namespace SceneGrammar.HeightMap

open Set

variable {α : Type}

/-! ## Cells and positions -/

theorem inBounds_iff {m : HeightMap α} {x y : Int} :
    m.inBounds x y = true ↔ 0 ≤ x ∧ x < m.width ∧ 0 ≤ y ∧ y < m.height := by
  rw [inBounds, decide_eq_true_iff]

theorem length_values (m : HeightMap α) : m.values.length = m.width * m.height :=
  Array.length_toList.trans m.cells_size

/-- the position of a cell in the list of values -/
def position (m : HeightMap α) (c : Int × Int) : Nat := m.index c.1.toNat c.2.toNat

/-- the cell of a position: the remainder by the width is its column, the quotient its row -/
def cellAt (m : HeightMap α) (i : Nat) : Int × Int := ((i % m.width : Nat), (i / m.width : Nat))

section

variable {m : HeightMap α}

theorem position_lt {c : Int × Int} (hc : m.inBounds c.1 c.2) : m.position c < m.values.length := by
  obtain ⟨hx, hx', hy, hy'⟩ := inBounds_iff.1 hc
  exact m.index_lt (by omega) (by omega)

theorem cellAt_inBounds {i : Nat} (hi : i < m.values.length) : m.inBounds (m.cellAt i).1 (m.cellAt i).2 := by
  have hcolumn := Nat.mod_lt i m.width_pos
  have hrow := Nat.div_lt_of_lt_mul (m.length_values ▸ hi)
  exact inBounds_iff.2 ⟨Int.natCast_nonneg _, Int.ofNat_lt.2 hcolumn, Int.natCast_nonneg _, Int.ofNat_lt.2 hrow⟩

theorem cellAt_position {c : Int × Int} (hc : m.inBounds c.1 c.2) : m.cellAt (m.position c) = c := by
  obtain ⟨hx, hx', hy, -⟩ := inBounds_iff.1 hc
  have hcolumn : c.1.toNat < m.width := by omega
  unfold cellAt position index
  rw [mod_of_lt hcolumn, div_of_lt hcolumn, Int.toNat_of_nonneg hx, Int.toNat_of_nonneg hy]

theorem position_cellAt (i : Nat) : m.position (m.cellAt i) = i := Nat.div_add_mod' i m.width

end

theorem position_bijOn (m : HeightMap α) :
    BijOn m.position {c | m.inBounds c.1 c.2} {i | i < m.values.length} :=
  InvOn.bijOn ⟨fun _ => cellAt_position, fun i _ => position_cellAt i⟩ (fun _ => position_lt) fun _ => cellAt_inBounds

/-! ## Reading and writing -/

section

variable {m : HeightMap α} {width height : Nat} {f : Nat × Nat → α} {x y : Int}

/-- every map has a chart -/
theorem exists_charts (m : HeightMap α) : ∃ f, m.Charts m.width m.height f := by
  have hfirst := m.index_lt m.width_pos m.height_pos
  refine ⟨fun c => m.cells.getD (m.index c.1 c.2) m.cells[m.index 0 0], rfl, rfl, fun x y hx hy => ?_⟩
  exact Array.getElem_eq_getD _

theorem Charts.get (h : m.Charts width height f) (hin : m.inBounds x y) : m.get x y = .ok (f (x.toNat, y.toNat)) := by
  rw [HeightMap.get, dif_pos (inBounds_iff.1 hin), h.cell_eq]

/-- a cell is read at its position -/
theorem get_position (hin : m.inBounds x y) : ∃ v, m.get x y = .ok v ∧ m.values[m.position (x, y)]? = some v := by
  refine ⟨_, dif_pos (inBounds_iff.1 hin), ?_⟩
  rw [values, Array.getElem?_toList]
  obtain ⟨hx, hx', hy, hy'⟩ := inBounds_iff.1 hin
  exact Array.getElem?_eq_getElem (m.index_lt (by omega) (by omega))

theorem get_outside (hout : ¬ m.inBounds x y) : m.get x y = .error (.outside x y m.width m.height) :=
  dif_neg fun h => hout (inBounds_iff.2 h)

theorem set_outside (hout : ¬ m.inBounds x y) (v : α) : m.set x y v = .error (.outside x y m.width m.height) :=
  if_neg hout

/-- **One write.** -/
theorem Charts.set (h : m.Charts width height f) (hin : m.inBounds x y) (v : α) :
    ∃ n, m.set x y v = .ok n ∧ n.Charts width height fun c => if x = c.1 ∧ y = c.2 then v else f c := by
  refine ⟨_, if_pos hin, h.width_eq, h.height_eq, fun i j hi hj => ?_⟩
  rw [← h.cell_eq i j hi hj]
  have hcell : m.inBounds i j := inBounds_iff.2 ⟨by omega, Int.ofNat_lt.2 hi, by omega, Int.ofNat_lt.2 hj⟩
  have hsame : m.position (x, y) = m.position (i, j) ↔ x = i ∧ y = j :=
    (m.position_bijOn.injOn.eq_iff (x := (x, y)) (y := (i, j)) hin hcell).trans Prod.ext_iff
  exact (Array.getElem_setIfInBounds (m.index_lt hi hj)).trans (if_congr hsame rfl rfl)

/-- a write is read in its cell, and nowhere else -/
theorem get_set (hin : m.inBounds x y) (v : α) : ∃ n, m.set x y v = .ok n ∧ n.width = m.width ∧ n.height = m.height ∧
    n.get x y = .ok v ∧ ∀ x' y', (x', y') ≠ (x, y) → n.get x' y' = m.get x' y' := by
  obtain ⟨f, hf⟩ := m.exists_charts
  obtain ⟨n, hn, hcharts⟩ := hf.set hin v
  have hbounds (x' y' : Int) : n.inBounds x' y' = m.inBounds x' y' := by
    rw [inBounds, inBounds, hcharts.width_eq, hcharts.height_eq]
  refine ⟨n, hn, hcharts.width_eq, hcharts.height_eq, ?_, fun x' y' hne => ?_⟩
  · obtain ⟨hx, -, hy, -⟩ := inBounds_iff.1 hin
    rw [hcharts.get ((hbounds x y).trans hin), Int.toNat_of_nonneg hx, Int.toNat_of_nonneg hy, if_pos ⟨rfl, rfl⟩]
  by_cases hin' : m.inBounds x' y'
  · obtain ⟨hx, -, hy, -⟩ := inBounds_iff.1 hin'
    have hother : ¬ (x = x' ∧ y = y') := fun h => hne (Prod.ext h.1.symm h.2.symm)
    rw [hcharts.get ((hbounds x' y').trans hin'), hf.get hin', Int.toNat_of_nonneg hx, Int.toNat_of_nonneg hy,
      if_neg hother]
  · rw [get_outside (hbounds x' y' ▸ hin'), get_outside hin', hcharts.width_eq, hcharts.height_eq]

end

/-! ## Runs of writes -/

/-- a value for a place -/
structure Entry (α : Type) where
  x : Int
  y : Int
  value : α

/-- a map after a write; one beside the map is refused and leaves it as it is -/
def write (m : HeightMap α) (e : Entry α) : HeightMap α :=
  match m.set e.x e.y e.value with
  | .ok n => n
  | .error _ => m

/-- the last value for a place, or what was there before if there is none -/
def lastWritten (before : α) (entries : List (Entry α)) (x y : Int) : α :=
  ((entries.filter fun e => e.x = x ∧ e.y = y).map Entry.value).getLastD before

theorem lastWritten_concat (before : α) (entries : List (Entry α)) (e : Entry α) (x y : Int) :
    lastWritten before (entries ++ [e]) x y =
      if e.x = x ∧ e.y = y then e.value else lastWritten before entries x y := by
  by_cases hat : e.x = x ∧ e.y = y
  · simp [lastWritten, hat]
  · simp [lastWritten, hat]

section

variable {m : HeightMap α} {width height : Nat} {f : Nat × Nat → α}

theorem write_outside {e : Entry α} (hout : ¬ m.inBounds e.x e.y) : m.write e = m := by
  rw [write, set_outside hout]

theorem Charts.write (h : m.Charts width height f) (e : Entry α) :
    (m.write e).Charts width height fun c => if e.x = c.1 ∧ e.y = c.2 then e.value else f c := by
  by_cases hin : m.inBounds e.x e.y
  · obtain ⟨n, hn, hcharts⟩ := h.set hin e.value
    rwa [HeightMap.write, hn]
  · -- no cell is the place of this entry
    rw [write_outside hin]
    refine h.congr fun c hc => (if_neg ?_).symm
    rintro ⟨hx, hy⟩
    have hcolumn : c.1 < m.width := h.width_eq ▸ hc.1
    have hrow : c.2 < m.height := h.height_eq ▸ hc.2
    exact hin (inBounds_iff.2 (by omega))

/-- **Runs.** By induction on the writes, the last one first. -/
theorem Charts.foldl_write (h : m.Charts width height f) (entries : List (Entry α)) :
    (entries.foldl HeightMap.write m).Charts width height fun c => lastWritten (f c) entries c.1 c.2 := by
  induction entries using List.reverseRecOn with
  | nil => exact h
  | append_singleton entries e ih =>
    rw [List.foldl_concat]
    exact (ih.write e).congr fun c _ => (lastWritten_concat (f c) entries e c.1 c.2).symm

end

/-! ## Rows -/

/-- the first `n` pieces of a list, each of length `w` -/
theorem flatten_pieces (l : List α) (w n : Nat) :
    ((List.range n).map fun y => (l.drop (y * w)).take w).flatten = l.take (n * w) := by
  induction n with
  | zero => simp
  | succ n ih =>
    rw [List.range_succ, List.map_append, List.flatten_append, ih, Nat.succ_mul, List.take_add]
    simp

section

variable {m : HeightMap α}

theorem rows_flatten (m : HeightMap α) : m.rows.flatten = m.values := by
  rw [rows, flatten_pieces, Nat.mul_comm, ← length_values, List.take_length]

theorem length_rows (m : HeightMap α) : m.rows.length = m.height := by
  rw [rows, List.length_map, List.length_range]

/-- the list does not end within a row -/
theorem length_of_mem_rows {row : List α} (hrow : row ∈ m.rows) : row.length = m.width := by
  obtain ⟨y, hy, rfl⟩ := List.mem_map.1 hrow
  have hlast := m.index_lt (Nat.sub_one_lt m.width_pos.ne') (List.mem_range.1 hy)
  rw [index, m.cells_size] at hlast
  rw [List.length_take, List.length_drop, length_values]
  omega

/-- a position of the list is a column of a row -/
theorem getElem?_rows {x y : Int} (hin : m.inBounds x y) :
    ∃ row, m.rows[y.toNat]? = some row ∧ row[x.toNat]? = m.values[m.position (x, y)]? := by
  obtain ⟨hx, hx', hy, hy'⟩ := inBounds_iff.1 hin
  have hcolumn : x.toNat < m.width := by omega
  have hrow : y.toNat < m.height := by omega
  refine ⟨(m.values.drop (y.toNat * m.width)).take m.width, ?_, ?_⟩
  · rw [rows, List.getElem?_map, List.getElem?_range hrow, Option.map_some]
  · rw [List.getElem?_take_of_lt hcolumn, List.getElem?_drop]
    rfl

end

/-- the list of a map, row after row, as a grid of cells -/
structure IsGrid (m : HeightMap α) : Prop where
  /-- cells and positions correspond one to one -/
  positions : BijOn m.position {c | m.inBounds c.1 c.2} {i | i < m.values.length}
  /-- a cell is read at its position in the list, and that is its column of its row -/
  reads : ∀ x y, m.inBounds x y → ∃ v row, m.get x y = .ok v ∧ m.values[m.position (x, y)]? = some v ∧
    m.rows[y.toNat]? = some row ∧ row[x.toNat]? = some v
  /-- a write is read in its cell, and nowhere else -/
  writes : ∀ x y, m.inBounds x y → ∀ v, ∃ n, m.set x y v = .ok n ∧ n.width = m.width ∧ n.height = m.height ∧
    n.get x y = .ok v ∧ ∀ x' y', (x', y') ≠ (x, y) → n.get x' y' = m.get x' y'
  /-- beside the map nothing is read, and nothing is written -/
  refuses : ∀ x y, ¬ m.inBounds x y → m.get x y = .error (.outside x y m.width m.height) ∧
    ∀ v, m.set x y v = .error (.outside x y m.width m.height) ∧ m.write ⟨x, y, v⟩ = m
  /-- there are as many rows as the map is high -/
  rows_length : m.rows.length = m.height
  /-- each row is as long as the map is wide -/
  row_length : ∀ row ∈ m.rows, row.length = m.width
  /-- the rows follow one another in the list -/
  rows_values : m.rows.flatten = m.values

theorem isGrid (m : HeightMap α) : m.IsGrid where
  positions := m.position_bijOn
  reads x y hin := by
    obtain ⟨v, hget, hvalue⟩ := get_position hin
    obtain ⟨row, hrow, hcolumn⟩ := getElem?_rows hin
    exact ⟨v, row, hget, hvalue, hrow, hcolumn.trans hvalue⟩
  writes _ _ := get_set
  refuses x y hout := ⟨get_outside hout, fun v => ⟨set_outside hout v, write_outside (e := ⟨x, y, v⟩) hout⟩⟩
  rows_length := m.length_rows
  row_length _ := length_of_mem_rows
  rows_values := m.rows_flatten

/-! ## Filling -/

section

variable {width height : Int} (hw : 0 < width) (hh : 0 < height) (value : α)

include hw hh

theorem filled_tooMany (hcells : 2 ^ 63 ≤ width * height) : filled width height value = .error .tooManyCells :=
  (dif_pos ⟨hw, hh⟩).trans (if_pos hcells)

theorem filled_charts (hcells : width * height < 2 ^ 63) :
    ∃ m, filled width height value = .ok m ∧ m.Charts width.toNat height.toNat fun _ => value := by
  refine ⟨_, (dif_pos ⟨hw, hh⟩).trans (if_neg (not_le.2 hcells)), rfl, rfl, fun x y hx hy => ?_⟩
  simp only [cell, Array.getElem_replicate]

end

/-! ## Sampling -/

/-- the cell `i` that a coordinate is sampled in, along an axis of `n` cells from zero to one -/
structure Under (n : Nat) (t : ℚ) (i : Int) : Prop where
  nonneg : 0 ≤ i
  lt : i < n
  /-- between zero and one it is the cell that the coordinate lies in -/
  within : 0 ≤ t → t < 1 → i = ⌊t * n⌋
  /-- before zero it is the first -/
  before : t < 0 → i = 0
  /-- from one on it is the last -/
  beyond : 1 ≤ t → i = n - 1
  /-- the middle of no other cell is nearer -/
  nearest : ∀ j : Int, 0 ≤ j → j < n → |t * n - (i + 1 / 2)| ≤ |t * n - (j + 1 / 2)|

section

variable {n : Nat} {i j : Int} {s t : ℚ}

/-- The middle of the cell that a place lies in is the nearest, and so is that of the first cell for a place before it and
that of the last for a place behind it. -/
theorem middle_nearest (hfirst : i = 0 ∨ (i : ℚ) ≤ s) (hlast : i = n - 1 ∨ s ≤ i + 1) (h0 : 0 ≤ j) (hn : j < n) :
    |s - (i + 1 / 2)| ≤ |s - (j + 1 / 2)| := by
  rcases lt_trichotomy j i with hlt | rfl | hgt
  · have hle : (j : ℚ) + 1 ≤ i := by exact_mod_cast hlt
    have hs : (i : ℚ) ≤ s := hfirst.resolve_left (by omega)
    have hnear : |s - (i + 1 / 2)| ≤ s - (j + 1 / 2) := abs_le.2 ⟨by linarith, by linarith⟩
    exact hnear.trans (le_abs_self _)
  · exact le_rfl
  · have hle : (i : ℚ) + 1 ≤ j := by exact_mod_cast hgt
    have hs : s ≤ i + 1 := hlast.resolve_left (by omega)
    have hnear : |s - (i + 1 / 2)| ≤ -(s - (j + 1 / 2)) := abs_le.2 ⟨by linarith, by linarith⟩
    exact hnear.trans (neg_le_abs _)

theorem under_first (hn : 0 < n) (ht : t < 0) : Under n t 0 where
  nonneg := le_rfl
  lt := by exact_mod_cast hn
  within h := absurd h ht.not_ge
  before _ := rfl
  beyond h := by linarith
  nearest j h0 hj := by
    have hproduct : t * n ≤ 0 := mul_nonpos_of_nonpos_of_nonneg ht.le n.cast_nonneg
    exact middle_nearest (.inl rfl) (.inr (by push_cast; linarith)) h0 hj

theorem under_floor (h0 : 0 ≤ t) (h1 : t < 1) (hn : 0 < n) : Under n t ⌊t * n⌋ where
  nonneg := Int.floor_nonneg.2 (mul_nonneg h0 n.cast_nonneg)
  lt := Int.floor_lt.2 (by exact_mod_cast mul_lt_of_lt_one_left (Nat.cast_pos.2 hn) h1)
  within _ _ := rfl
  before h := absurd h h0.not_gt
  beyond h := absurd h h1.not_ge
  nearest _ := middle_nearest (.inr (Int.floor_le _)) (.inr (Int.lt_floor_add_one _).le)

theorem under_last (hn : 0 < n) (ht : 1 ≤ t) : Under n t (n - 1) where
  nonneg := by omega
  lt := by omega
  within _ h := absurd h ht.not_gt
  before h := by linarith
  beyond _ := rfl
  nearest j h0 hj := by
    have hproduct : (n : ℚ) ≤ t * n := le_mul_of_one_le_left n.cast_nonneg ht
    exact middle_nearest (.inr (by push_cast; linarith)) (.inl rfl) h0 hj

/-- a product cut off toward zero and moved into the axis -/
theorem under_snap (hn : 0 < n) (t : ℚ) : Under n t (snap n (if t * n < 0 then ⌈t * n⌉ else ⌊t * n⌋)) := by
  have hpos : (0 : ℚ) < n := Nat.cast_pos.2 hn
  rcases lt_or_ge t 0 with hneg | h0
  · have hproduct : t * n < 0 := mul_neg_of_neg_of_pos hneg hpos
    have hcut : ⌈t * n⌉ ≤ 0 := Int.ceil_le.2 (by exact_mod_cast hproduct.le)
    have hsnap : (snap n ⌈t * n⌉ : Int) = 0 := by unfold snap; omega
    rw [if_pos hproduct, hsnap]
    exact under_first hn hneg
  rw [if_neg (mul_nonneg h0 hpos.le).not_gt]
  rcases lt_or_ge t 1 with h1 | h1
  · have h := under_floor h0 h1 hn
    have hnonneg := h.nonneg
    have hlt := h.lt
    have hsnap : (snap n ⌊t * n⌋ : Int) = ⌊t * n⌋ := by unfold snap; omega
    rwa [hsnap]
  · have hlast : (n : Int) ≤ ⌊t * n⌋ := Int.le_floor.2 (by exact_mod_cast le_mul_of_one_le_left hpos.le h1)
    have hsnap : (snap n ⌊t * n⌋ : Int) = n - 1 := by unfold snap; omega
    rw [hsnap]
    exact under_last hn h1

end

/-- a sample is what is read in the column and the row under the point -/
theorem sample_reads (m : HeightMap ℚ) (u v : ℚ) :
    ∃ x y h, Under m.width u x ∧ Under m.height v y ∧ m.get x y = .ok h ∧ m.sample u v = .ok h := by
  have hx := under_snap m.width_pos u
  have hy := under_snap m.height_pos v
  exact ⟨_, _, _, hx, hy, dif_pos ⟨hx.nonneg, hx.lt, hy.nonneg, hy.lt⟩, rfl⟩

/-- **Height maps.** For every size, every value that a map is filled with and every run of writes:

- unless the map would have more cells than a list can hold, it is made, and keeps its size; each of its cells holds the
  last value written there, or the one it was filled with;
- its list is a grid of cells (`IsGrid`): cells and positions correspond one to one, a write changes what is read in its
  cell and nowhere else, beside the map reads and writes are refused and change nothing, and there are as many rows as it is
  high, each as long as it is wide, which agree with what is read and follow one another in the list.

Over the rationals, whatever the cells of a map hold, a sample at any point of the plane is what is read in a cell: along
each axis the one that the point lies in, or, if it lies beside the axis, the first or the last, whichever is nearest. -/
theorem faithful_grid {width height : Int} (hw : 0 < width) (hh : 0 < height) (value : α) (entries : List (Entry α)) :
    (2 ^ 63 ≤ width * height ∧ filled width height value = .error .tooManyCells ∨
      ∃ start m, filled width height value = .ok start ∧ entries.foldl write start = m ∧
        m.width = width ∧ m.height = height ∧ m.IsGrid ∧
        ∀ x y, m.inBounds x y → m.get x y = .ok (lastWritten value entries x y)) ∧
    ∀ (m : HeightMap ℚ) (u v : ℚ),
      ∃ x y h, Under m.width u x ∧ Under m.height v y ∧ m.get x y = .ok h ∧ m.sample u v = .ok h := by
  refine ⟨?_, sample_reads⟩
  rcases le_or_gt (2 ^ 63) (width * height) with hmany | hfew
  · exact .inl ⟨hmany, filled_tooMany hw hh value hmany⟩
  obtain ⟨start, hstart, hcharts⟩ := filled_charts hw hh value hfew
  have hwritten := hcharts.foldl_write entries
  refine .inr ⟨start, _, hstart, rfl, ?_, ?_, isGrid _, fun x y hin => ?_⟩
  · rw [hwritten.width_eq, Int.toNat_of_nonneg hw.le]
  · rw [hwritten.height_eq, Int.toNat_of_nonneg hh.le]
  · obtain ⟨hx, -, hy, -⟩ := inBounds_iff.1 hin
    rw [hwritten.get hin, Int.toNat_of_nonneg hx, Int.toNat_of_nonneg hy]

/-- three columns and two rows, one cell written twice and one write beside the map; the points sampled lie right of the map
and left of it by less than a cell -/
theorem faithful_grid_three_by_two :
    ((0 : Int) < 3 ∧ (0 : Int) < 2) ∧ ∃ start m : HeightMap ℚ, filled 3 2 (1 / 2) = .ok start ∧
      List.foldl write start [⟨2, 1, 5⟩, ⟨0, 1, 1⟩, ⟨3, 0, 9⟩, ⟨0, 1, 4⟩] = m ∧ m.IsGrid ∧
      m.get 0 1 = .ok 4 ∧ m.get 0 0 = .ok (1 / 2) ∧ m.sample 7 (3 / 4) = .ok 5 ∧ m.sample (-1 / 9) (1 / 2) = .ok 4 := by
  obtain ⟨⟨hmany, -⟩ | ⟨start, m, hstart, hm, hwidth, hheight, hgrid, hget⟩, hsample⟩ :=
    faithful_grid (show (0 : Int) < 3 by decide) (show (0 : Int) < 2 by decide) (1 / 2 : ℚ)
      [⟨2, 1, 5⟩, ⟨0, 1, 1⟩, ⟨3, 0, 9⟩, ⟨0, 1, 4⟩]
  · exact absurd hmany (by decide)
  have hread {x y : Int} (hin : 0 ≤ x ∧ x < 3 ∧ 0 ≤ y ∧ y < 2) := hget x y (inBounds_iff.2 (by rwa [hwidth, hheight]))
  have htall : (m.height : ℚ) = 2 := by exact_mod_cast hheight
  refine ⟨⟨by decide, by decide⟩, start, m, hstart, hm, hgrid, ?_, ?_, ?_, ?_⟩
  · exact (hread (by decide)).trans (by decide +kernel)
  · exact (hread (by decide)).trans (by decide +kernel)
  · obtain ⟨x, y, h, hx, hy, hh, hs⟩ := hsample m 7 (3 / 4)
    have hcolumn : x = 2 := by rw [hx.beyond (by norm_num), hwidth]; rfl
    have hrow : y = 1 := by rw [hy.within (by norm_num) (by norm_num), htall]; norm_num
    rw [hcolumn, hrow, hread (by decide)] at hh
    have hvalue : h = 5 := (Except.ok.inj hh).symm.trans (by decide +kernel)
    rw [hs, hvalue]
  · obtain ⟨x, y, h, hx, hy, hh, hs⟩ := hsample m (-1 / 9) (1 / 2)
    have hcolumn : x = 0 := hx.before (by norm_num)
    have hrow : y = 1 := by rw [hy.within (by norm_num) (by norm_num), htall]; norm_num
    rw [hcolumn, hrow, hread (by decide)] at hh
    have hvalue : h = 4 := (Except.ok.inj hh).symm.trans (by decide +kernel)
    rw [hs, hvalue]

end SceneGrammar.HeightMap
