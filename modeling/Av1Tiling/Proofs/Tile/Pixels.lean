import Av1Tiling.Proofs.Tile.Synthesis

/-!
# Where tiles start in samples

A layout of a frame that is not empty is found again from the sample columns and rows at which its
tiles start, as far as it cuts the frame. What it says of each of its tiles lies on these columns
and rows.
-/

namespace Av1Tiling

theorem Cut.exists_append {count limit : Nat} {starts : List Nat} (cut : Cut count limit starts) :
    ∃ front, starts = front ++ [count] := by
  induction starts with
  | nil => cases cut
  | cons a rest ih =>
    cases rest with
    | nil => exact ⟨[], congrArg (fun last => [last]) (cut : a = count)⟩
    | cons b rest =>
      obtain ⟨front, same⟩ := ih cut.2.2
      exact ⟨a :: front, by rw [same, List.cons_append]⟩

/-- A list is made up of what is found at the indices up to its length. -/
theorem filterMap_range {α : Type} {find : Nat → Option α} {items : List α}
    (each : ∀ index < items.length, find index = items[index]?) :
    (List.range items.length).filterMap find = items := by
  induction items generalizing find with
  | nil => rfl
  | cons item rest ih =>
    have first : find 0 = some item := each 0 (Nat.zero_lt_succ _)
    have others := ih fun index less => each (index + 1) (Nat.succ_lt_succ less)
    rw [List.length_cons, List.range_succ_eq_map, List.filterMap_cons, first, List.filterMap_map]
    exact congrArg (item :: ·) others

/-- The size of a frame, and the sample columns and rows at which its tiles start. -/
structure Placement where
  width : Nat
  height : Nat
  xs : List Nat
  ys : List Nat
  deriving Repr, DecidableEq

/-- A frame that is one tile. -/
def Placement.single (width height : Nat) : Placement where
  width := width
  height := height
  xs := [0]
  ys := [0]

/-- The samples of a tile, which ends where the next column and row start, or with the frame. -/
def Placement.rect? (placement : Placement) (tile : Nat) : Option TileRect := do
  let column := tile % placement.xs.length
  let row := tile / placement.xs.length
  let x ← placement.xs[column]?
  let y ← placement.ys[row]?
  let right := min (placement.xs[column + 1]?.getD placement.width) placement.width
  let bottom := min (placement.ys[row + 1]?.getD placement.height) placement.height
  some { column, row, x, y, width := right - x, height := bottom - y }

namespace TileLayout

/-- Where a layout puts its tiles. -/
def placement (layout : TileLayout) : Placement where
  width := layout.grid.frameWidth
  height := layout.grid.frameHeight
  xs := layout.colStarts.dropLast.map (· * layout.grid.superblockSize)
  ys := layout.rowStarts.dropLast.map (· * layout.grid.superblockSize)

variable {layout : TileLayout} {cols rows : List Nat}

/-- The tiles of a layout start where all but the last of its starts are. -/
theorem Expressible.startsAt (expressible : layout.Expressible) :
    layout.StartsAt layout.colStarts.dropLast layout.rowStarts.dropLast := by
  have closed : ∀ {starts front : List Nat} {count : Nat}, starts = front ++ [count] →
      starts = starts.dropLast ++ [count] := by
    rintro _ front count rfl
    rw [List.dropLast_concat]
  have legal := expressible.cuts
  split at legal
  next uniform =>
    exact ⟨closed (congrArg Cuts.colStarts legal.starts),
      closed (congrArg Cuts.rowStarts legal.starts)⟩
  next explicit =>
    obtain ⟨⟨-, colCut, -⟩, ⟨-, rowCut, -⟩, -⟩ := legal
    obtain ⟨cols, colStarts⟩ := colCut.exists_append
    obtain ⟨rows, rowStarts⟩ := rowCut.exists_append
    exact ⟨closed colStarts, closed rowStarts⟩

namespace StartsAt

theorem columns_eq (startsAt : layout.StartsAt cols rows) : layout.columns = cols.length := by
  rw [columns, startsAt.1, length_sub_one]

theorem rows_eq (startsAt : layout.StartsAt cols rows) : layout.rows = rows.length := by
  rw [TileLayout.rows, startsAt.2, length_sub_one]

theorem tileCount_eq (startsAt : layout.StartsAt cols rows) :
    layout.tileCount = cols.length * rows.length := by
  rw [tileCount, startsAt.columns_eq, startsAt.rows_eq]

/-- All tiles start on the grid. -/
theorem inside (startsAt : layout.StartsAt cols rows) (inRange : layout.grid.InRange)
    (expressible : layout.Expressible) :
    (∀ col ∈ cols, col < layout.grid.sbCols) ∧ ∀ row ∈ rows, row < layout.grid.sbRows := by
  obtain ⟨colsClosed, rowsClosed⟩ := closed_of_expressible inRange rfl expressible startsAt
  exact ⟨(closeStarts_eq_ok.1 colsClosed).2.2.2, (closeStarts_eq_ok.1 rowsClosed).2.2.2⟩

end StartsAt

theorem Expressible.placement_columns (expressible : layout.Expressible) :
    layout.placement.xs.length = layout.columns := by
  rw [placement, List.length_map, expressible.startsAt.columns_eq]

theorem Expressible.placement_rows (expressible : layout.Expressible) :
    layout.placement.ys.length = layout.rows := by
  rw [placement, List.length_map, expressible.startsAt.rows_eq]

theorem Expressible.placement_count (expressible : layout.Expressible) :
    layout.placement.xs.length * layout.placement.ys.length = layout.tileCount := by
  rw [expressible.placement_columns, expressible.placement_rows, tileCount]

/-! ## Samples -/

theorem mapM_superblockAt (axis : Axis) {size : Nat} (positive : 0 < size) (starts : List Nat) :
    (starts.map (· * size)).mapM (superblockAt axis size) = .ok starts := by
  induction starts with
  | nil => rfl
  | cons start rest ih =>
    have first : superblockAt axis size (start * size) = .ok start := by
      rw [superblockAt, if_pos (Nat.mul_mod_left start size), Nat.mul_div_cancel start positive]
    rw [List.map_cons, List.mapM_cons, first, ih]
    rfl

theorem superblockSize_bounds (grid : SuperblockGrid) :
    0 < grid.superblockSize ∧ grid.superblockSize ≤ 128 := by
  rw [SuperblockGrid.superblockSize, SuperblockGrid.sizeLog2, SuperblockGrid.superblockShift]
  split <;> decide

/-- The layout that is found for the samples at which the tiles of a layout start cuts the frame as
    that layout does. -/
theorem ofPixelStarts_own (inRange : layout.grid.InRange) (expressible : layout.Expressible) :
    ∃ found, ofPixelStarts layout.grid layout.placement.xs layout.placement.ys = .ok found ∧
      layout.sameCuts found = true := by
  have startsAt := expressible.startsAt
  obtain ⟨found, success⟩ := ofSuperblockStarts_complete inRange rfl expressible startsAt
  obtain ⟨same, -, others, -⟩ := ofSuperblockStarts_sound success
  have positive := (superblockSize_bounds layout.grid).1
  refine ⟨found, ?_, ?_⟩
  · rw [ofPixelStarts, placement, mapM_superblockAt .column positive,
      mapM_superblockAt .row positive]
    exact success
  · have cols : found.colStarts = layout.colStarts := by
      rw [others.1, same]
      exact startsAt.1.symm
    have rows : found.rowStarts = layout.rowStarts := by
      rw [others.2, same]
      exact startsAt.2.symm
    rw [sameCuts, cols, rows, beq_self_eq_true, beq_self_eq_true]
    rfl

/-- A single tile is the whole frame. -/
theorem placement_of_single (inRange : layout.grid.InRange) (expressible : layout.Expressible)
    (single : layout.tileCount = 1) :
    layout.placement = .single layout.grid.frameWidth layout.grid.frameHeight := by
  have startsAt := expressible.startsAt
  obtain ⟨colsClosed, rowsClosed⟩ := closed_of_expressible inRange rfl expressible startsAt
  have colHead := (closeStarts_eq_ok.1 colsClosed).2.1
  have rowHead := (closeStarts_eq_ok.1 rowsClosed).2.1
  rw [startsAt.tileCount_eq] at single
  obtain ⟨col, cols⟩ := List.length_eq_one_iff.1 (Nat.eq_one_of_mul_eq_one_right single)
  obtain ⟨row, rows⟩ := List.length_eq_one_iff.1 (Nat.eq_one_of_mul_eq_one_left single)
  rw [cols] at colHead
  rw [rows] at rowHead
  cases colHead
  cases rowHead
  rw [placement, cols, rows]
  simp only [List.map_cons, List.map_nil, Nat.zero_mul]
  rfl

/-- Each tile reaches from its own column and row to the next ones. -/
theorem rect?_eq_next (startsAt : layout.StartsAt cols rows) {tile : Nat}
    (inside : tile < layout.tileCount) :
    ∃ col row right bottom, cols[tile % cols.length]? = some col ∧
      rows[tile / cols.length]? = some row ∧
      (cols ++ [layout.grid.sbCols])[tile % cols.length + 1]? = some right ∧
      (rows ++ [layout.grid.sbRows])[tile / cols.length + 1]? = some bottom ∧
      layout.rect? tile = some {
        column := tile % cols.length, row := tile / cols.length
        x := col * layout.grid.superblockSize, y := row * layout.grid.superblockSize
        width := min (right * layout.grid.superblockSize) layout.grid.frameWidth -
          col * layout.grid.superblockSize
        height := min (bottom * layout.grid.superblockSize) layout.grid.frameHeight -
          row * layout.grid.superblockSize } := by
  have total := startsAt.tileCount_eq
  have columns := startsAt.columns_eq
  have positive : 0 < cols.length := by
    refine Nat.pos_of_ne_zero fun none => ?_
    rw [total, none, Nat.zero_mul] at inside
    exact Nat.not_lt_zero _ inside
  have column : tile % cols.length < cols.length := Nat.mod_lt _ positive
  have row : tile / cols.length < rows.length := by
    rw [Nat.div_lt_iff_lt_mul positive, Nat.mul_comm]
    rwa [total] at inside
  have atCol := List.getElem?_eq_getElem column
  have atRow := List.getElem?_eq_getElem row
  have next (starts : List Nat) (count index : Nat) (less : index < starts.length) :
      ∃ stop, (starts ++ [count])[index + 1]? = some stop :=
    ⟨_, List.getElem?_eq_getElem (by rw [List.length_append, List.length_singleton]; omega)⟩
  obtain ⟨right, colStop⟩ := next cols layout.grid.sbCols _ column
  obtain ⟨bottom, rowStop⟩ := next rows layout.grid.sbRows _ row
  refine ⟨_, _, right, bottom, atCol, atRow, colStop, rowStop, ?_⟩
  simp only [rect?, if_pos inside, columns, startsAt.1, startsAt.2,
    List.getElem?_append_left column, List.getElem?_append_left row, atCol, atRow, colStop, rowStop]
  rfl

/-- Each tile lies on the columns and rows of the layout, inside of the frame. -/
theorem rect?_eq_some (startsAt : layout.StartsAt cols rows) {tile : Nat}
    (inside : tile < layout.tileCount) :
    ∃ col row rect, cols[tile % cols.length]? = some col ∧ rows[tile / cols.length]? = some row ∧
      layout.rect? tile = some rect ∧ rect.x = col * layout.grid.superblockSize ∧
      rect.y = row * layout.grid.superblockSize ∧ rect.width ≤ layout.grid.frameWidth ∧
      rect.height ≤ layout.grid.frameHeight := by
  obtain ⟨col, row, right, bottom, atCol, atRow, -, -, found⟩ := rect?_eq_next startsAt inside
  exact ⟨col, row, _, atCol, atRow, found, rfl, rfl,
    Nat.le_trans (Nat.sub_le ..) (Nat.min_le_right ..),
    Nat.le_trans (Nat.sub_le ..) (Nat.min_le_right ..)⟩

/-- A tile ends where the next one starts, and the last one with the frame. -/
theorem min_stop_eq {starts : List Nat} {count size length : Nat} (covers : length ≤ count * size)
    {index stop : Nat} (inside : index < starts.length)
    (next : (starts ++ [count])[index + 1]? = some stop) :
    min (stop * size) length =
      min ((starts.map (· * size))[index + 1]?.getD length) length := by
  rw [List.getElem?_map]
  by_cases later : index + 1 < starts.length
  · rw [List.getElem?_append_left later] at next
    rw [next]
    rfl
  · obtain last : index + 1 = starts.length := by omega
    rw [last, List.getElem?_concat_length] at next
    obtain rfl := Option.some.inj next
    rw [last, List.getElem?_eq_none (Nat.le_refl _), Nat.min_eq_right covers]
    exact (Nat.min_self length).symm

/-- What a layout says of its tiles is said by where it puts them. -/
theorem Expressible.rect?_eq (expressible : layout.Expressible) {tile : Nat}
    (inside : tile < layout.tileCount) : layout.rect? tile = layout.placement.rect? tile := by
  obtain ⟨col, row, right, bottom, atCol, atRow, colStop, rowStop, found⟩ :=
    rect?_eq_next expressible.startsAt inside
  have width := min_stop_eq (layout.grid.le_covering_mul layout.grid.frameWidth)
    (List.getElem?_eq_some_iff.1 atCol).1 colStop
  have height := min_stop_eq (layout.grid.le_covering_mul layout.grid.frameHeight)
    (List.getElem?_eq_some_iff.1 atRow).1 rowStop
  rw [found, width, height]
  simp only [Placement.rect?, placement, List.length_map, List.getElem?_map, atCol, atRow]
  rfl

theorem mapM_superblockAt_sound {axis : Axis} {size : Nat} {starts found : List Nat}
    (success : starts.mapM (superblockAt axis size) = .ok found) :
    starts = found.map (· * size) := by
  induction starts generalizing found with
  | nil =>
    cases success
    rfl
  | cons start rest ih =>
    rw [List.mapM_cons] at success
    obtain ⟨first, here, success⟩ := Checked.bind_eq_ok.1 success
    obtain ⟨others, later, success⟩ := Checked.bind_eq_ok.1 success
    cases success
    rw [superblockAt] at here
    split at here
    next whole =>
      cases here
      rw [List.map_cons, Nat.div_mul_cancel (Nat.dvd_of_mod_eq_zero whole), ← ih later]
    next => cases here

/-- A layout that is found can be expressed, and its tiles start at the given samples. -/
theorem ofPixelStarts_sound {grid : SuperblockGrid} {xs ys : List Nat} {layout : TileLayout}
    (success : ofPixelStarts grid xs ys = .ok layout) :
    layout.grid = grid ∧ layout.Expressible ∧ ∃ cols rows, layout.StartsAt cols rows ∧
      xs = cols.map (· * grid.superblockSize) ∧ ys = rows.map (· * grid.superblockSize) := by
  obtain ⟨cols, across, success⟩ := Checked.bind_eq_ok.1 success
  obtain ⟨rows, down, success⟩ := Checked.bind_eq_ok.1 success
  obtain ⟨same, expressible, startsAt, -⟩ := ofSuperblockStarts_sound success
  exact ⟨same, expressible, cols, rows, startsAt, mapM_superblockAt_sound across,
    mapM_superblockAt_sound down⟩

end TileLayout

end Av1Tiling
