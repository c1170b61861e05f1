import Av1Tiling.Proofs.Code.Safety
import Av1Tiling.Proofs.Tile.Group

/-!
# Layouts and tile groups without faults

A layout names a context tile only where the index of a tile takes any bits, and then the frame has
a tile: a frame without superblocks has neither. A group goes by a layout that was read, so its
range is not empty and its tile sizes have one to four bytes.
-/

namespace Av1Tiling

variable {start : BitReader}

namespace SuperblockGrid

variable {grid : SuperblockGrid}

/-- There are superblocks in both directions, or in neither, and not too many of them. -/
structure Covered (grid : SuperblockGrid) : Prop where
  both : grid.sbCols = 0 ∧ grid.sbRows = 0 ∨ 1 ≤ grid.sbCols ∧ 1 ≤ grid.sbRows
  cols : grid.sbCols ≤ 1024
  rows : grid.sbRows ≤ 1024

theorem InRange.covered (inRange : grid.InRange) : grid.Covered := by
  have cols := inRange.sbCols
  have rows := inRange.sbRows
  refine ⟨.inr ⟨cols.1, rows.1⟩, ?_, ?_⟩
  · split at cols <;> omega
  · split at rows <;> omega

theorem covering_empty (grid : SuperblockGrid) : grid.covering (modeInfoUnits 0) = 0 := by
  have size := Nat.two_pow_pos grid.superblockShift
  exact Nat.div_eq_of_lt (by rw [modeInfoUnits]; omega)

/-- The grid of no frame. -/
theorem covered_of_empty (noWidth : grid.frameWidth = 0) (noHeight : grid.frameHeight = 0) :
    grid.Covered := by
  have noCols : grid.sbCols = 0 := by
    rw [sbCols, miCols, noWidth]
    exact covering_empty grid
  have noRows : grid.sbRows = 0 := by
    rw [sbRows, miRows, noHeight]
    exact covering_empty grid
  exact ⟨.inl ⟨noCols, noRows⟩, by omega, by omega⟩

end SuperblockGrid

namespace TileLayout

theorem increment_safe (name : String) (min max : Nat) :
    Read.Safe start (Field.increment name min max).read fun _ => True := by
  have safe : Read.Safe start (Field.increment name min max).readCode fun _ => True :=
    Increment.read_safe min max
  exact (Field.read_safe safe).mono fun _ _ => trivial

theorem readStarts_safe (name : String) (count limit left first : Nat) :
    Read.Safe start (readStarts name count limit left first) fun _ => True := by
  induction left generalizing first with
  | zero =>
    refine .ite (fun _ => .pure trivial) fun _ => .throw ?_
    exact Failure.not_isFault_raised _
  | succ left ih =>
    refine .ite (fun _ => .pure trivial) fun _ => ?_
    have size : Read.Safe start (sizeField name count limit first).readCode fun _ => True :=
      NonSymmetric.read_safe _
    exact (Field.read_safe size).bind fun size _ => (ih _).bind fun _ _ => .pure trivial

namespace Cuts

variable {grid : SuperblockGrid} {cuts : Cuts}

/-- The cuts were read, uniform or not. -/
def IsRead (grid : SuperblockGrid) (uniform : Bool) (cuts : Cuts) : Prop :=
  if uniform then cuts.IsUniform grid else cuts.IsExplicit grid

theorem readUniform_safe (grid : SuperblockGrid) :
    Read.Safe start (readUniform grid) (IsUniform grid) := by
  have safe : Read.Safe start (readUniform grid) fun _ => True :=
    (increment_safe _ _ _).bind fun _ _ => (increment_safe _ _ _).bind fun _ _ => .pure trivial
  exact safe.of_decodes (readUniform_decodes grid)

theorem readExplicit_safe (narrow : grid.Narrow) :
    Read.Safe start (readExplicit grid) (IsExplicit grid) := by
  have safe : Read.Safe start (readExplicit grid) fun _ => True :=
    (readStarts_safe _ _ _ _ _).bind fun _ _ => (readStarts_safe _ _ _ _ _).bind fun _ _ =>
      .pure trivial
  exact safe.of_decodes (readExplicit_decodes narrow)

theorem read_safe (narrow : grid.Narrow) (uniform : Bool) :
    Read.Safe start (if uniform then readUniform grid else readExplicit grid)
      (IsRead grid uniform) := by
  cases uniform with
  | true => exact readUniform_safe grid
  | false => exact readExplicit_safe narrow

theorem tileCount_safe (cuts : Cuts) :
    Read.Safe start (liftM cuts.tileCount) fun tiles =>
      tiles = (cuts.colStarts.length - 1) * (cuts.rowStarts.length - 1) :=
  .liftStream fun _ counted => (tileCount_eq_ok.1 counted).2

/-- An axis without superblocks is not cut. -/
theorem IsAxis.eq_of_empty {limit : Nat} {starts : List Nat} (axis : IsAxis 0 limit starts) :
    starts = [0] :=
  (cut_end_iff (by decide)).1 axis

theorem IsAxis.two_le {count limit : Nat} {starts : List Nat} (axis : IsAxis count limit starts)
    (some : 1 ≤ count) : 2 ≤ starts.length := by
  rcases axis with ⟨head, cut, -⟩
  match starts, head, cut with
  | [_], rfl, cut => exact absurd cut (Nat.ne_of_lt some)
  | _ :: _ :: rest, rfl, _ =>
    simp only [List.length_cons]
    omega

theorem two_le_uniformStarts {count : Nat} (some : 1 ≤ count) (log2 : Nat) :
    2 ≤ (uniformStarts count log2).length := by
  rw [length_uniformStarts]
  exact Nat.succ_le_succ (uniformTiles_pos some log2)

/-- Without superblocks the index of a tile takes no bits. -/
theorem IsRead.tileBits_of_empty {uniform : Bool} (isRead : cuts.IsRead grid uniform)
    (cols : grid.sbCols = 0) (rows : grid.sbRows = 0) : cuts.tileBits = 0 := by
  have empty : tileLog2 1 (min 0 64) = 0 := by
    have least : tileLog2 1 (min 0 64) ≤ 0 := tileLog2_le (by decide)
    exact Nat.le_zero.1 least
  cases uniform with
  | true =>
    have legal : cuts.IsUniform grid := isRead
    have noCols := legal.cols.2
    have noRows := legal.rows.2
    rw [SuperblockGrid.maxLog2Cols, cols, SuperblockGrid.maxTileColumns, empty] at noCols
    rw [SuperblockGrid.maxLog2Rows, rows, SuperblockGrid.maxTileRows, empty] at noRows
    rw [tileBits]
    omega
  | false =>
    have legal : cuts.IsExplicit grid := isRead
    have noCols := legal.cols
    have noRows := legal.rows
    rw [cols] at noCols
    rw [rows] at noRows
    rw [legal.logs, noCols.eq_of_empty, noRows.eq_of_empty]
    exact Nat.add_eq_zero_iff.2 ⟨empty, empty⟩

/-- With superblocks there is a tile. -/
theorem IsRead.tiles_of_covered {uniform : Bool} (isRead : cuts.IsRead grid uniform)
    (cols : 1 ≤ grid.sbCols) (rows : 1 ≤ grid.sbRows) :
    1 ≤ (cuts.colStarts.length - 1) * (cuts.rowStarts.length - 1) := by
  suffices several : 2 ≤ cuts.colStarts.length ∧ 2 ≤ cuts.rowStarts.length from
    Nat.mul_pos (by omega) (by omega)
  cases uniform with
  | true =>
    have legal : cuts.IsUniform grid := isRead
    rw [legal.starts]
    exact ⟨two_le_uniformStarts cols _, two_le_uniformStarts rows _⟩
  | false =>
    have legal : cuts.IsExplicit grid := isRead
    exact ⟨legal.cols.two_le cols, legal.rows.two_le rows⟩

end Cuts

theorem readRest_safe {bits tiles : Nat} (some : 0 < bits → 1 ≤ tiles) :
    Read.Safe start (readRest bits tiles) fun _ => True := by
  refine .ite (fun several => ?_) fun _ => .pure trivial
  have field : Checked.Gives (contextField bits tiles) fun field => field.coding = .bits bits :=
    ⟨_, contextField_eq_ok.2 ⟨some several, rfl⟩, rfl⟩
  refine (Read.Safe.lift field).bind fun field coding => ?_
  refine (Field.bits_read_safe field bits coding).bind fun _ _ => ?_
  exact (Field.bits_read_safe tileSizeBytesField 2 rfl).bind fun _ _ => .pure trivial

/-- Reading a layout yields one that can be expressed. -/
theorem read_safe {grid : SuperblockGrid} (narrow : grid.Narrow) (covered : grid.Covered) :
    Read.Safe start (read grid) fun layout => layout.grid = grid ∧ layout.Expressible := by
  have safe : Read.Safe start (read grid) fun _ => True := by
    rw [read_eq]
    refine (Field.readFlag_safe "uniform_tile_spacing_flag").bind fun uniform _ => ?_
    refine (Cuts.read_safe narrow uniform).bind fun cuts isRead => ?_
    refine cuts.tileCount_safe.bind fun tiles counted => ?_
    refine (readRest_safe ?_).bind fun rest _ => .pure trivial
    intro several
    rw [counted]
    rcases covered.both with ⟨cols, rows⟩ | ⟨cols, rows⟩
    · have none := isRead.tileBits_of_empty cols rows
      omega
    · exact isRead.tiles_of_covered cols rows
  exact safe.of_decodes (read_decodes narrow)

/-- A layout of superblocks has columns and rows. -/
theorem Expressible.tiles_pos {layout : TileLayout} (expressible : layout.Expressible)
    (cols : 1 ≤ layout.grid.sbCols) (rows : 1 ≤ layout.grid.sbRows) :
    1 ≤ layout.columns ∧ 1 ≤ layout.rows := by
  have isRead : layout.cuts.IsRead layout.grid layout.uniform := expressible.cuts
  have some : 0 < layout.columns * layout.rows := isRead.tiles_of_covered cols rows
  exact ⟨Nat.pos_of_mul_pos_right some, Nat.pos_of_mul_pos_left some⟩

/-- The tile sizes of a layout that can be expressed have one to four bytes. -/
theorem Expressible.tileSizeBytes {layout : TileLayout} (expressible : layout.Expressible) :
    1 ≤ layout.tileSizeBytes ∧ layout.tileSizeBytes ≤ 4 := by
  have rest := expressible.rest
  unfold RestLegal at rest
  split at rest
  · exact rest.2
  · have default : layout.tileSizeBytes = defaultTileSizeBytes := rest.2
    rw [default]
    decide

end TileLayout

namespace TileGroup

/-- A group has a range of tiles that ends in front of the end of the frame. -/
theorem readHeader_safe (layout : TileLayout) :
    Read.Safe start (readHeader layout) fun found =>
      found.2.1 ≤ found.2.2 ∧ found.2.2 ≤ layout.tileCount - 1 := by
  have present : Read.Safe start (readPresent layout) fun _ => True :=
    .ite (fun _ => Field.readFlag_safe _) fun _ => .pure trivial
  have range : ∀ present, Read.Safe start (readRange layout present) fun range =>
      range.1 ≤ range.2 ∧ range.2 ≤ layout.tileCount - 1 := by
    intro present
    refine .ite (fun _ => ?_) fun _ => .pure ⟨Nat.zero_le _, Nat.le_refl _⟩
    refine (Field.bits_read_safe (indexField "tg_start" layout 0) _ rfl).bind fun first _ => ?_
    refine (Field.bits_read_safe (indexField "tg_end" layout first) _ rfl).bind fun last known => ?_
    exact .pure known.2
  exact present.bind fun _ _ => (range _).bind fun _ known =>
    Read.zeroPadding_safe.bind fun _ _ => .pure known

/-- No group holds tiles behind the last one of the frame. -/
theorem parse_last {payload : Bytes} {layout : TileLayout} {group : TileGroup}
    (parsed : parse payload layout = .ok group) : group.last ≤ layout.tileCount - 1 := by
  obtain ⟨⟨behind, run, -⟩, -⟩ := parse_eq_ok.1 parsed
  exact ((readHeader_safe layout).of_ok (.refl (.ofBytes payload)) run).1.2

/-- Tile sizes of one to four bytes can be read wherever there are as many bytes, and they are
    words. -/
theorem sizeOf_cases {sizeBytes : Nat} (width : 1 ≤ sizeBytes ∧ sizeBytes ≤ 4) (tile : Nat)
    (rest : Bytes) :
    (∃ size, sizeOf sizeBytes tile rest = .ok size ∧ size < 2 ^ 32) ∨
      sizeOf sizeBytes tile rest = .error (.raised (.tileSizeCutShort tile)) := by
  unfold sizeOf
  by_cases short : rest.length < sizeBytes
  · rw [if_pos short]
    exact .inr rfl
  · rw [if_neg short, if_neg (by omega)]
    refine .inl ⟨_, rfl, ?_⟩
    have below := Bytes.toNatLE_lt (rest.take sizeBytes)
    rw [List.length_take, Nat.min_eq_left (by omega)] at below
    exact Nat.lt_of_lt_of_le below (Nat.pow_le_pow_right (by decide) width.2)

theorem locate_error {sizeBytes count tile offset : Nat} {rest : Bytes} {cause : Failure StreamError}
    (width : 1 ≤ sizeBytes ∧ sizeBytes ≤ 4)
    (failed : locate sizeBytes count tile offset rest = .error cause) : ¬ cause.IsFault := by
  induction count generalizing tile offset rest with
  | zero => cases failed
  | succ count ih =>
    rcases Checked.bind_eq_error.1 failed with first | ⟨span, -, second⟩
    · unfold locateOne at first
      rcases sizeOf_cases width tile rest with ⟨size, found, fits⟩ | failure
      · rw [found, Checked.bind_of_ok rfl, Checked.long_eq_ok (by omega)] at first
        rcases Checked.bind_eq_error.1 first with ⟨⟨⟩⟩ | ⟨_, -, first⟩
        split at first
        · cases first
          exact Failure.not_isFault_raised _
        · cases first
      · rw [failure] at first
        cases first
        exact Failure.not_isFault_raised _
    · rcases Checked.bind_eq_error.1 second with later | ⟨spans, -, last⟩
      · exact ih later
      · cases last

/-- A group of a layout that can be expressed is found, or something in it is wrong. -/
theorem parse_error {payload : Bytes} {layout : TileLayout} {cause : Failure StreamError}
    (expressible : layout.Expressible) (failed : parse payload layout = .error cause) :
    ¬ cause.IsFault := by
  have width := expressible.tileSizeBytes
  have header : Read.Safe (.ofBytes payload) (readHeader layout) _ := readHeader_safe layout
  unfold parse Read.runOn EStateM.run at failed
  cases run : readHeader layout (.ofBytes payload) with
  | error other behind =>
    rw [run] at failed
    cases failed
    exact (header.of_error (.refl _) run).1
  | ok found behind =>
    have known := header.of_ok (.refl _) run
    rw [run] at failed
    simp only at failed
    rw [Checked.sub_eq_ok known.2.bytePos_le, Checked.sub_eq_ok known.1.1] at failed
    rcases Checked.bind_eq_error.1 failed with ⟨⟨⟩⟩ | ⟨_, -, failed⟩
    rcases Checked.bind_eq_error.1 failed with ⟨⟨⟩⟩ | ⟨_, -, failed⟩
    rcases Checked.bind_eq_error.1 failed with located | ⟨spans, -, last⟩
    · exact locate_error width located
    · cases last

end TileGroup

end Av1Tiling
