import Av1Tiling.Proofs.Frame.Rewriting
import Av1Tiling.Proofs.Tile.Safety
import Av1Tiling.Proofs.Tile.Tiling

/-!
# Layouts as partitions of their frames

Wherever a layout comes from, its tiles share out the frame of its grid (`partitions`): they are not
too many for the bits of their indices and not too wide, and the samples at which they start are
enough to find a layout that cuts the frame in the same places.
-/

namespace Av1Tiling.TileLayout

/-- A layout that is offered for a grid, or found for the samples at which its tiles start. -/
def IsOf (layout : TileLayout) (grid : SuperblockGrid) : Prop :=
  FrameHeader.Offered grid layout ∨ ∃ xs ys, ofPixelStarts grid xs ys = .ok layout

/-- The sample columns at which the tiles of the first row start. -/
def firstRow (layout : TileLayout) : List Nat :=
  (List.range layout.columns).filterMap fun column => (layout.rect? column).map TileRect.x

/-- The sample rows at which the tiles of the first column start. -/
def firstColumn (layout : TileLayout) : List Nat :=
  (List.range layout.rows).filterMap fun row =>
    (layout.rect? (row * layout.columns)).map TileRect.y

variable {layout : TileLayout} {grid : SuperblockGrid}

theorem IsOf.expressible (isOf : layout.IsOf grid) (narrow : grid.Narrow) :
    layout.grid = grid ∧ layout.Expressible := by
  rcases isOf with offered | ⟨xs, ys, success⟩
  · exact offered.expressible narrow
  · obtain ⟨same, expressible, -⟩ := ofPixelStarts_sound success
    exact ⟨same, expressible⟩

namespace Expressible

/-! ## How many tiles there are -/

/-- The logarithms leave room for all columns and rows. -/
theorem tiles_le_pow (expressible : layout.Expressible) :
    layout.columns ≤ 2 ^ layout.colsLog2 ∧ layout.rows ≤ 2 ^ layout.rowsLog2 := by
  have uniform (count log2 : Nat) : (uniformStarts count log2).length - 1 ≤ 2 ^ log2 := by
    rw [length_uniformStarts, Nat.add_sub_cancel]
    exact uniformTiles_le count log2
  have explicit (starts : List Nat) : starts.length - 1 ≤ 2 ^ tileLog2 1 (starts.length - 1) := by
    have reached := le_mul_tileLog2 Nat.one_ne_zero (starts.length - 1)
    rwa [Nat.one_mul] at reached
  have legal := expressible.cuts
  split at legal
  next =>
    have cols : layout.colStarts = _ := congrArg Cuts.colStarts legal.starts
    have rows : layout.rowStarts = _ := congrArg Cuts.rowStarts legal.starts
    rw [columns, TileLayout.rows, cols, rows]
    exact ⟨uniform _ _, uniform _ _⟩
  next =>
    have cols : layout.colsLog2 = _ := congrArg Cuts.colsLog2 legal.logs
    have rows : layout.rowsLog2 = _ := congrArg Cuts.rowsLog2 legal.logs
    rw [cols, rows]
    exact ⟨explicit _, explicit _⟩

theorem tileCount_le (expressible : layout.Expressible) :
    layout.tileCount ≤ 2 ^ layout.tileBits := by
  obtain ⟨columns, rows⟩ := expressible.tiles_le_pow
  rw [tileCount, tileBits, Nat.pow_add]
  exact Nat.mul_le_mul columns rows

/-! ## How wide they are -/

/-- No column has more superblocks than the grid allows. -/
theorem colCut (expressible : layout.Expressible) (cols : 1 ≤ layout.grid.sbCols) :
    Cut layout.grid.sbCols layout.grid.maxTileWidthSb layout.colStarts := by
  have legal := expressible.cuts
  split at legal
  next =>
    have least := legal.cols.1
    have positive := Nat.one_le_iff_ne_zero.2 layout.grid.maxTileWidthSb_pos
    have narrow : uniformSize layout.grid.sbCols layout.colsLog2 ≤ layout.grid.maxTileWidthSb := by
      rw [uniformSize_le_iff positive, Nat.mul_comm]
      exact (tileLog2_le_iff layout.grid.maxTileWidthSb_pos ..).1 least
    have same : layout.colStarts = _ := congrArg Cuts.colStarts legal.starts
    rw [same]
    exact (uniformStarts_cut cols _).2.mono narrow
  next => exact legal.cols.2.1

theorem width_le (expressible : layout.Expressible) (cols : 1 ≤ layout.grid.sbCols) {tile : Nat}
    (inside : tile < layout.tileCount) {rect : TileRect} (found : layout.rect? tile = some rect) :
    rect.width ≤ SuperblockGrid.maxTileWidth := by
  have startsAt := expressible.startsAt
  obtain ⟨col, row, right, bottom, atCol, -, atRight, -, same⟩ := rect?_eq_next startsAt inside
  obtain rfl := Option.some.inj (found.symm.trans same)
  have column := (List.getElem?_eq_some_iff.1 atCol).1
  rw [← List.getElem?_append_left column, ← startsAt.1] at atCol
  rw [← startsAt.1] at atRight
  have next := (expressible.colCut cols).next_le atCol atRight
  calc min (right * layout.grid.superblockSize) layout.grid.frameWidth -
        col * layout.grid.superblockSize
      ≤ (col + layout.grid.maxTileWidthSb) * layout.grid.superblockSize -
          col * layout.grid.superblockSize :=
        Nat.sub_le_sub_right (Nat.le_trans (Nat.min_le_left ..) (Nat.mul_le_mul_right _ next)) _
    _ = layout.grid.maxTileWidthSb * layout.grid.superblockSize := by
        rw [Nat.add_mul, Nat.add_sub_cancel_left]
    _ = SuperblockGrid.maxTileWidth := layout.grid.maxTileWidthSb_mul

end Expressible

/-! ## Where they start -/

/-- The tiles of the first row start at all columns, and those of the first column at all rows. -/
theorem Expressible.firsts_eq (expressible : layout.Expressible)
    (some : 1 ≤ layout.columns ∧ 1 ≤ layout.rows) :
    layout.firstRow = layout.placement.xs ∧ layout.firstColumn = layout.placement.ys := by
  have columns := expressible.placement_columns
  have rows := expressible.placement_rows
  rw [firstRow, firstColumn, expressible.rect?_eq_placement, ← columns, ← rows]
  rw [← columns, ← rows] at some
  constructor
  · refine filterMap_range fun column less => ?_
    have inside := Nat.lt_of_lt_of_le less (Nat.le_mul_of_pos_right _ some.2)
    rw [(Placement.rect?_starts inside).1, Nat.mod_eq_of_lt less]
  · refine filterMap_range fun row less => ?_
    have inside := Nat.mul_lt_mul_of_pos_right less some.1
    rw [Nat.mul_comm layout.placement.ys.length] at inside
    rw [(Placement.rect?_starts inside).2, Nat.mul_div_cancel _ some.1]

/-! ## Every layout -/

/-- The tiles of a layout share out its frame, in no more columns and rows than there may be. None
    is too wide, their indices fit the bits of an index, and for the samples at which the first row
    and the first column of them start a layout is found that makes the same cuts. -/
theorem IsOf.partitions (inRange : grid.InRange) (isOf : layout.IsOf grid) :
    Tiling grid.frameWidth grid.frameHeight layout.columns layout.rows layout.rect? ∧
      ((1 ≤ layout.columns ∧ layout.columns ≤ 64) ∧ 1 ≤ layout.rows ∧ layout.rows ≤ 64) ∧
      (∀ tile rect, layout.rect? tile = some rect → rect.width ≤ 4096) ∧
      layout.tileCount ≤ 2 ^ layout.tileBits ∧
      ∃ found, ofPixelStarts grid layout.firstRow layout.firstColumn = .ok found ∧
        layout.sameCuts found = true := by
  obtain ⟨rfl, expressible⟩ := isOf.expressible inRange.narrow
  have positive := expressible.tiles_pos inRange.sbCols.1 inRange.sbRows.1
  obtain ⟨found, success, same⟩ := ofPixelStarts_own inRange expressible
  have legal : layout.placement.Legal := ofPixelStarts_legal success
  have tiling : Tiling layout.grid.frameWidth layout.grid.frameHeight layout.columns layout.rows
      layout.rect? := by
    have shared := legal.tiling
    rwa [← expressible.rect?_eq_placement, expressible.placement_columns,
      expressible.placement_rows] at shared
  refine ⟨tiling, ⟨⟨positive.1, expressible.tiles.1⟩, positive.2, expressible.tiles.2⟩, ?_,
    expressible.tileCount_le, ?_⟩
  · intro tile rect at_
    exact expressible.width_le inRange.sbCols.1 ((tiling.total tile).1 ⟨rect, at_⟩) at_
  · obtain ⟨row, column⟩ := expressible.firsts_eq positive
    rw [row, column]
    exact ⟨found, success, same⟩

/-- Three columns of ten superblocks, in a frame whose last row of superblocks is cut off. -/
theorem IsOf.partitions_three_columns : (⟨1920, 1080, false⟩ : SuperblockGrid).InRange ∧
    ∃ layout : TileLayout, layout.IsOf ⟨1920, 1080, false⟩ ∧ layout.tileCount = 3 ∧
      layout.tileBits = 2 ∧ Tiling 1920 1080 3 1 layout.rect? ∧
      ∃ found, ofPixelStarts ⟨1920, 1080, false⟩ [0, 640, 1280] [0] = .ok found ∧
        layout.sameCuts found = true := by
  have inRange : (⟨1920, 1080, false⟩ : SuperblockGrid).InRange := ⟨by decide, by decide⟩
  have success : ofSuperblockStarts ⟨1920, 1080, false⟩ [0, 10, 20] [0] = .ok {
      grid := ⟨1920, 1080, false⟩, uniform := false, colsLog2 := 2, rowsLog2 := 0
      colStarts := [0, 10, 20, 30], rowStarts := [0, 17], contextTile := 0
      tileSizeBytes := 4 } := by decide +kernel
  have isOf : IsOf _ ⟨1920, 1080, false⟩ := .inl (.inr ⟨_, _, success⟩)
  obtain ⟨tiling, -, -, -, again⟩ := isOf.partitions inRange
  exact ⟨inRange, _, isOf, rfl, rfl, tiling, again⟩

end Av1Tiling.TileLayout
