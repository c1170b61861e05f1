import Av1Tiling.Proofs.Tile.Safety

/-!
# Limits of tilings

What may be said of the tiles of a frame is bounded from both sides: by how wide and how large a tile
may be, and by how many there may be. All of it is computed from the size of the frame in numbers of
32 bits, and for no size do the bounds contradict each other. So there are logarithms to code for every
frame, and whatever logarithms are coded, no axis is cut into more tiles than there may be
(`InRange.uniform_limits`).
-/

namespace Av1Tiling

/-- A block that is doubled until it reaches its target is not doubled any further. -/
theorem mul_tileLog2_le (block target : Nat) :
    block * 2 ^ tileLog2 block target ≤ max block (2 * target) := by
  by_cases none : block = 0
  · rw [none, Nat.zero_mul]
    exact Nat.zero_le _
  · cases same : tileLog2 block target with
    | zero => omega
    | succ log2 =>
      have before : block * 2 ^ log2 < target := by
        apply (lt_tileLog2_iff none target log2).1
        omega
      rw [Nat.pow_succ, ← Nat.mul_assoc]
      omega

namespace SuperblockGrid

variable {grid : SuperblockGrid}

/-- Blocks of four by four samples come to as many superblocks as the samples themselves. -/
theorem covering_eq (grid : SuperblockGrid) (length : Nat) :
    grid.covering (modeInfoUnits length) =
      (length + grid.superblockSize - 1) / grid.superblockSize := by
  cases large : grid.large <;>
    simp only [covering, modeInfoUnits, superblockSize, sizeLog2, superblockShift, large] <;>
    simp only [Bool.false_eq_true, if_true, if_false] <;> omega

/-! ## Numbers -/

/-- All numbers on the way from the size of a frame to its limits, with the blocks that are doubled to
    find a logarithm in their last size. -/
def numbers (grid : SuperblockGrid) : List Nat :=
  [grid.frameWidth + 7, grid.frameHeight + 7, grid.miCols, grid.miRows,
    grid.miCols + 2 ^ grid.superblockShift, grid.miRows + 2 ^ grid.superblockShift,
    grid.sbCols, grid.sbRows, grid.sbRows * grid.sbCols, 2 ^ (2 * grid.sizeLog2),
    grid.maxTileWidthSb, grid.maxTileAreaSb,
    grid.maxTileWidthSb * 2 ^ grid.minLog2Cols, 1 * 2 ^ grid.maxLog2Cols, 1 * 2 ^ grid.maxLog2Rows,
    grid.maxTileAreaSb * 2 ^ tileLog2 grid.maxTileAreaSb (grid.sbRows * grid.sbCols)]

/-- No number on the way to the limits of a frame is too large. -/
theorem InRange.numbers_lt (inRange : grid.InRange) :
    ∀ number ∈ grid.numbers, number < Checked.wordBound := by
  have width := inRange.width.2
  have height := inRange.height.2
  have cols := inRange.covered.cols
  have rows := inRange.covered.rows
  have area : grid.sbRows * grid.sbCols ≤ 1024 * 1024 := Nat.mul_le_mul rows cols
  have cols4 : grid.miCols = 2 * ((grid.frameWidth + 7) / 8) := rfl
  have rows4 : grid.miRows = 2 * ((grid.frameHeight + 7) / 8) := rfl
  have side : 2 ^ grid.superblockShift ≤ 32 ∧ 2 ^ (2 * grid.sizeLog2) ≤ 16384 := by
    rw [sizeLog2, superblockShift]
    split <;> decide
  have widest : grid.maxTileWidthSb ≤ 64 := by
    rw [maxTileWidthSb_eq]
    split <;> decide
  have largest : grid.maxTileAreaSb ≤ 2304 := by
    rw [maxTileAreaSb_eq]
    split <;> decide
  have leastCols : grid.maxTileWidthSb * 2 ^ grid.minLog2Cols ≤
      max grid.maxTileWidthSb (2 * grid.sbCols) := mul_tileLog2_le ..
  have mostCols : 1 * 2 ^ grid.maxLog2Cols ≤ max 1 (2 * min grid.sbCols maxTileColumns) :=
    mul_tileLog2_le ..
  have mostRows : 1 * 2 ^ grid.maxLog2Rows ≤ max 1 (2 * min grid.sbRows maxTileRows) :=
    mul_tileLog2_le ..
  have leastTiles := mul_tileLog2_le grid.maxTileAreaSb (grid.sbRows * grid.sbCols)
  rw [maxSide] at width height
  rw [maxTileColumns] at mostCols
  rw [maxTileRows] at mostRows
  simp only [numbers, Checked.wordBound, List.forall_mem_cons, List.not_mem_nil, false_implies,
    implies_true, and_true]
  omega

/-- The grid of a frame of any legal size can be computed. -/
theorem InRange.checked (inRange : grid.InRange) :
    checked grid.frameWidth grid.frameHeight grid.large = .ok grid := by
  have words := inRange.numbers_lt
  simp only [numbers, List.forall_mem_cons] at words
  obtain ⟨width, height, -, -, -, -, -, -, area, -⟩ := words
  rw [SuperblockGrid.checked, Checked.bind_of_ok (Checked.word_eq_ok width),
    Checked.bind_of_ok (Checked.word_eq_ok height), Checked.bind_of_ok (Checked.word_eq_ok area)]
  rfl

/-! ## Tiles -/

/-- A field of increments has a legal value where its bounds are in order. -/
theorem exists_increment {name : String} {min max : Nat} (ordered : min ≤ max) :
    ∃ value, (Field.increment name min max).check value = .ok () :=
  ⟨min, Field.check_eq_ok.2 ⟨Nat.le_refl min, ordered⟩⟩

/-- Superblocks of an axis are shared between at least one tile and at most as many as the logarithm
    says. -/
theorem uniformStarts_bounds {count log2 : Nat} (positive : 1 ≤ count) (few : log2 ≤ 6) :
    1 ≤ (uniformStarts count log2).length - 1 ∧ (uniformStarts count log2).length - 1 ≤ 64 := by
  rw [length_uniformStarts, Nat.add_sub_cancel]
  constructor
  · exact uniformTiles_pos positive log2
  · calc uniformTiles count log2
        ≤ 2 ^ log2 := uniformTiles_le count log2
      _ ≤ 2 ^ 6 := Nat.pow_le_pow_right (by decide) few

/-- For every legal size of a frame its grid is computed without a number that is too large, and has
    as many superblocks as it takes to cover the frame. The least logarithms of columns and rows do
    not lie above the greatest ones, whatever number of columns was chosen, so that there are legal
    values of both to code. All of these logarithms cut each axis into 1 to 64 tiles. -/
theorem InRange.uniform_limits (inRange : grid.InRange) :
    SuperblockGrid.checked grid.frameWidth grid.frameHeight grid.large = .ok grid ∧
      (∀ number ∈ grid.numbers, number < Checked.wordBound) ∧
      grid.sbCols = (grid.frameWidth + grid.superblockSize - 1) / grid.superblockSize ∧
      grid.sbRows = (grid.frameHeight + grid.superblockSize - 1) / grid.superblockSize ∧
      grid.minLog2Cols ≤ grid.maxLog2Cols ∧
      (∃ colsLog2, (TileLayout.colsLog2Field grid).check colsLog2 = .ok ()) ∧
      ∀ colsLog2, grid.minLog2Cols ≤ colsLog2 → colsLog2 ≤ grid.maxLog2Cols →
        grid.minLog2Rows colsLog2 ≤ grid.maxLog2Rows ∧
        (∃ rowsLog2, (TileLayout.rowsLog2Field grid colsLog2).check rowsLog2 = .ok ()) ∧
        ∀ rowsLog2, grid.minLog2Rows colsLog2 ≤ rowsLog2 → rowsLog2 ≤ grid.maxLog2Rows →
          let cuts := TileLayout.Cuts.uniform grid colsLog2 rowsLog2
          (1 ≤ cuts.colStarts.length - 1 ∧ cuts.colStarts.length - 1 ≤ 64) ∧
            1 ≤ cuts.rowStarts.length - 1 ∧ cuts.rowStarts.length - 1 ≤ 64 := by
  have columns := inRange.minLog2Cols_le
  refine ⟨inRange.checked, inRange.numbers_lt, grid.covering_eq _, grid.covering_eq _, columns,
    exists_increment columns, ?_⟩
  intro colsLog2 least most
  have rows := inRange.minLog2Rows_le least
  refine ⟨rows, exists_increment rows, ?_⟩
  intro rowsLog2 least' most'
  constructor
  · exact uniformStarts_bounds inRange.sbCols.1 (Nat.le_trans most grid.maxLog2Cols_le)
  · exact uniformStarts_bounds inRange.sbRows.1 (Nat.le_trans most' grid.maxLog2Rows_le)

/-- The largest frame. With 16 columns, which are as few as it may have, it has no fewer than 32
    rows. -/
theorem InRange.uniform_limits_largest :
    let grid : SuperblockGrid := ⟨65536, 65536, false⟩
    let cuts := TileLayout.Cuts.uniform grid 4 5
    grid.InRange ∧ (grid.minLog2Cols = 4 ∧ 4 ≤ grid.maxLog2Cols) ∧
      (grid.minLog2Rows 4 = 5 ∧ 5 ≤ grid.maxLog2Rows) ∧
      SuperblockGrid.checked 65536 65536 false = .ok grid ∧ grid.sbCols = 1024 ∧
      (1 ≤ cuts.colStarts.length - 1 ∧ cuts.colStarts.length - 1 ≤ 64) ∧
      1 ≤ cuts.rowStarts.length - 1 ∧ cuts.rowStarts.length - 1 ≤ 64 := by
  intro grid cuts
  have inRange : grid.InRange := ⟨by decide, by decide⟩
  have cols : grid.minLog2Cols = 4 ∧ 4 ≤ grid.maxLog2Cols := by decide +kernel
  have rows : grid.minLog2Rows 4 = 5 ∧ 5 ≤ grid.maxLog2Rows := by decide +kernel
  obtain ⟨computed, -, wide, -, -, -, choices⟩ := inRange.uniform_limits
  obtain ⟨-, -, counts⟩ := choices 4 (Nat.le_of_eq cols.1) cols.2
  exact ⟨inRange, cols, rows, computed, wide.trans (by decide), counts 5 (Nat.le_of_eq rows.1) rows.2⟩

end SuperblockGrid

end Av1Tiling
