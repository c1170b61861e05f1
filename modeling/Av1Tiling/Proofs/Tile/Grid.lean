import Av1Tiling.Tile.Grid

/-!
# Bounds of superblock grids

A frame has at most 65536 samples on a side. For such frames a grid leaves room for tiles: the least
logarithms of the numbers of columns and of rows do not lie above the greatest ones.
-/

namespace Av1Tiling

/-- Rounded up, a quotient is at most `k` where `k` divisors make up the dividend. -/
theorem ceilDiv_le_iff {divisor : Nat} (positive : 0 < divisor) (dividend k : Nat) :
    (dividend + divisor - 1) / divisor ≤ k ↔ dividend ≤ divisor * k := by
  rw [Nat.div_le_iff_le_mul_add_pred positive]
  omega

theorem tileLog2_le_iff {block : Nat} (positive : block ≠ 0) (target k : Nat) :
    tileLog2 block target ≤ k ↔ target ≤ block * 2 ^ k := by
  constructor
  · intro le
    have power : 2 ^ tileLog2 block target ≤ 2 ^ k := Nat.pow_le_pow_right (by decide) le
    exact Nat.le_trans (le_mul_tileLog2 positive target) (Nat.mul_le_mul_left block power)
  · exact tileLog2_le

theorem lt_tileLog2_iff {block : Nat} (positive : block ≠ 0) (target k : Nat) :
    k < tileLog2 block target ↔ block * 2 ^ k < target := by
  rw [← Nat.not_le, tileLog2_le_iff positive, Nat.not_le]

namespace SuperblockGrid

/-- The most samples on a side of a frame. -/
def maxSide : Nat := 65536

/-- The grid of a frame of some legal size. -/
structure InRange (grid : SuperblockGrid) : Prop where
  width : 1 ≤ grid.frameWidth ∧ grid.frameWidth ≤ maxSide
  height : 1 ≤ grid.frameHeight ∧ grid.frameHeight ≤ maxSide

variable {grid : SuperblockGrid}

/-- Superblocks of 64 samples on a side, or half as many of 128. -/
theorem covering_bounds (grid : SuperblockGrid) {length : Nat} (least : 1 ≤ length)
    (greatest : length ≤ maxSide) :
    1 ≤ grid.covering (modeInfoUnits length) ∧
      grid.covering (modeInfoUnits length) ≤ if grid.large then 512 else 1024 := by
  rw [maxSide] at greatest
  cases large : grid.large <;> simp only [covering, modeInfoUnits, superblockShift, large] <;>
    simp only [Bool.false_eq_true, if_true, if_false] <;> omega

/-- The superblocks of a frame reach to its end. -/
theorem le_covering_mul (grid : SuperblockGrid) (length : Nat) :
    length ≤ grid.covering (modeInfoUnits length) * grid.superblockSize := by
  cases large : grid.large <;>
    simp only [covering, modeInfoUnits, superblockSize, sizeLog2, superblockShift, large] <;>
    simp only [Bool.false_eq_true, if_true, if_false] <;> omega

/-- A frame that is not empty has superblocks. -/
theorem covering_pos (grid : SuperblockGrid) {length : Nat} (least : 1 ≤ length) :
    1 ≤ grid.covering (modeInfoUnits length) := by
  refine Nat.pos_of_ne_zero fun none => ?_
  have reached := grid.le_covering_mul length
  rw [none, Nat.zero_mul] at reached
  omega

theorem InRange.sbCols (inRange : grid.InRange) :
    1 ≤ grid.sbCols ∧ grid.sbCols ≤ if grid.large then 512 else 1024 :=
  covering_bounds grid inRange.width.1 inRange.width.2

theorem InRange.sbRows (inRange : grid.InRange) :
    1 ≤ grid.sbRows ∧ grid.sbRows ≤ if grid.large then 512 else 1024 :=
  covering_bounds grid inRange.height.1 inRange.height.2

theorem maxTileWidthSb_eq (grid : SuperblockGrid) :
    grid.maxTileWidthSb = if grid.large then 32 else 64 := by
  cases large : grid.large <;>
    simp [maxTileWidthSb, sizeLog2, superblockShift, large, maxTileWidth]

theorem maxTileAreaSb_eq (grid : SuperblockGrid) :
    grid.maxTileAreaSb = if grid.large then 576 else 2304 := by
  cases large : grid.large <;>
    simp [maxTileAreaSb, sizeLog2, superblockShift, large, maxTileArea]

theorem maxTileWidthSb_pos (grid : SuperblockGrid) : grid.maxTileWidthSb ≠ 0 := by
  rw [maxTileWidthSb_eq]
  split <;> decide

/-- The widest tiles are whole superblocks. -/
theorem maxTileWidthSb_mul (grid : SuperblockGrid) :
    grid.maxTileWidthSb * grid.superblockSize = maxTileWidth := by
  rw [maxTileWidthSb_eq]
  cases large : grid.large <;>
    simp [superblockSize, sizeLog2, superblockShift, large, maxTileWidth]

theorem maxTileAreaSb_pos (grid : SuperblockGrid) : grid.maxTileAreaSb ≠ 0 := by
  rw [maxTileAreaSb_eq]
  split <;> decide

/-- With fewer tiles on an axis than superblocks, each tile has a superblock of its own. -/
theorem pow_lt_of_lt_tileLog2 {count limit log2 : Nat} (lt : log2 < tileLog2 1 (min count limit)) :
    2 ^ log2 < count := by
  rw [lt_tileLog2_iff Nat.one_ne_zero, Nat.one_mul] at lt
  omega

theorem maxLog2_le (count : Nat) : tileLog2 1 (min count 64) ≤ 6 := by
  rw [tileLog2_le_iff Nat.one_ne_zero]
  exact Nat.min_le_right ..

theorem maxLog2Cols_le (grid : SuperblockGrid) : grid.maxLog2Cols ≤ 6 :=
  maxLog2_le _

theorem maxLog2Rows_le (grid : SuperblockGrid) : grid.maxLog2Rows ≤ 6 :=
  maxLog2_le _

/-- Unless all superblocks may be in tiles of their own, there may be 64 tiles. -/
theorem le_pow_maxLog2 (count : Nat) :
    count ≤ 2 ^ tileLog2 1 (min count 64) ∨ 64 ≤ 2 ^ tileLog2 1 (min count 64) := by
  have reached := le_mul_tileLog2 Nat.one_ne_zero (min count 64)
  rw [Nat.one_mul] at reached
  omega

theorem InRange.minLog2Cols_le (inRange : grid.InRange) : grid.minLog2Cols ≤ grid.maxLog2Cols := by
  have upper := inRange.sbCols.2
  rw [minLog2Cols, tileLog2_le_iff grid.maxTileWidthSb_pos, maxTileWidthSb_eq, maxLog2Cols]
  rcases le_pow_maxLog2 grid.sbCols with all | many
  · refine Nat.le_trans all (Nat.le_mul_of_pos_left _ ?_)
    split <;> decide
  · refine Nat.le_trans ?_ (Nat.mul_le_mul_left _ many)
    split at upper <;> simp_all <;> omega

/-- The columns chosen keep tiles narrow, so the rows left to choose keep them small. -/
theorem InRange.minLog2Rows_le (inRange : grid.InRange) {colsLog2 : Nat}
    (least : grid.minLog2Cols ≤ colsLog2) : grid.minLog2Rows colsLog2 ≤ grid.maxLog2Rows := by
  have upper := inRange.sbRows.2
  rw [minLog2Cols, tileLog2_le_iff grid.maxTileWidthSb_pos] at least
  suffices small : tileLog2 grid.maxTileAreaSb (grid.sbRows * grid.sbCols) ≤
      grid.maxLog2Rows + colsLog2 by
    have narrow : grid.minLog2Cols ≤ colsLog2 :=
      (tileLog2_le_iff grid.maxTileWidthSb_pos _ _).2 least
    rw [minLog2Rows, minLog2Tiles]
    omega
  rw [tileLog2_le_iff grid.maxTileAreaSb_pos]
  have rows : grid.sbRows * grid.maxTileWidthSb ≤ grid.maxTileAreaSb * 2 ^ grid.maxLog2Rows := by
    rw [maxTileWidthSb_eq, maxTileAreaSb_eq, maxLog2Rows]
    rcases le_pow_maxLog2 grid.sbRows with all | many
    · refine Nat.le_trans (Nat.mul_le_mul_right _ all) ?_
      rw [Nat.mul_comm]
      refine Nat.mul_le_mul_right _ ?_
      split <;> decide
    · refine Nat.le_trans ?_ (Nat.mul_le_mul_left _ many)
      split at upper <;> simp_all <;> omega
  calc grid.sbRows * grid.sbCols
      ≤ grid.sbRows * (grid.maxTileWidthSb * 2 ^ colsLog2) := Nat.mul_le_mul_left _ least
    _ = grid.sbRows * grid.maxTileWidthSb * 2 ^ colsLog2 := (Nat.mul_assoc ..).symm
    _ ≤ grid.maxTileAreaSb * 2 ^ grid.maxLog2Rows * 2 ^ colsLog2 := Nat.mul_le_mul_right _ rows
    _ = grid.maxTileAreaSb * 2 ^ (grid.maxLog2Rows + colsLog2) := by
      rw [Nat.mul_assoc, ← Nat.pow_add]

end SuperblockGrid

end Av1Tiling
