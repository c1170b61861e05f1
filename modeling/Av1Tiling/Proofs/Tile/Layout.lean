import Av1Tiling.Proofs.Tile.Starts

/-!
# Layouts and their codes

A layout can be expressed where its cuts are those of two legal logarithms or of legal sizes, and
where it names a tile and a size of tile sizes exactly if there is room for them. The layouts that
are read are those that can be expressed, from their codes alone, and these codes are what is
written. So a layout has one code only (`write_of_read`).
-/

namespace Av1Tiling

namespace SuperblockGrid

/-- The numbers of superblocks can be counted in codes of at most 64 bits. -/
structure Narrow (grid : SuperblockGrid) : Prop where
  sbCols : grid.sbCols < 2 ^ 64
  sbRows : grid.sbRows < 2 ^ 64

theorem InRange.narrow {grid : SuperblockGrid} (inRange : grid.InRange) : grid.Narrow := by
  have cols := inRange.sbCols.2
  have rows := inRange.sbRows.2
  constructor
  · split at cols <;> omega
  · split at rows <;> omega

end SuperblockGrid

namespace TileLayout

namespace Cuts

variable {grid : SuperblockGrid}

/-- The cuts are the uniform ones of logarithms that the grid leaves room for. -/
structure IsUniform (grid : SuperblockGrid) (cuts : Cuts) : Prop where
  cols : grid.minLog2Cols ≤ cuts.colsLog2 ∧ cuts.colsLog2 ≤ grid.maxLog2Cols
  rows : grid.minLog2Rows cuts.colsLog2 ≤ cuts.rowsLog2 ∧ cuts.rowsLog2 ≤ grid.maxLog2Rows
  starts : cuts = uniform grid cuts.colsLog2 cuts.rowsLog2

/-- The greatest height of a tile next to the widest of the cuts. -/
def heightLimit (grid : SuperblockGrid) (cuts : Cuts) : Nat :=
  grid.maxTileHeightSb (largest (tileSizes cuts.colStarts))

/-- The tiles of an axis from its first superblock on, not too many and not too large ones. -/
def IsAxis (count limit : Nat) (starts : List Nat) : Prop :=
  starts.head? = some 0 ∧ Cut count limit starts ∧ starts.length ≤ maxTilesPerAxis + 1

/-- The cuts make tiles that are small enough for the grid. -/
structure IsExplicit (grid : SuperblockGrid) (cuts : Cuts) : Prop where
  cols : IsAxis grid.sbCols grid.maxTileWidthSb cuts.colStarts
  rows : IsAxis grid.sbRows (cuts.heightLimit grid) cuts.rowStarts
  logs : cuts = explicit cuts.colStarts cuts.rowStarts

def uniformCode (grid : SuperblockGrid) (cuts : Cuts) : Bits :=
  Increment.code grid.minLog2Cols grid.maxLog2Cols cuts.colsLog2 ++
    Increment.code (grid.minLog2Rows cuts.colsLog2) grid.maxLog2Rows cuts.rowsLog2

def explicitCode (grid : SuperblockGrid) (cuts : Cuts) : Bits :=
  startsCode grid.sbCols grid.maxTileWidthSb cuts.colStarts ++
    startsCode grid.sbRows (cuts.heightLimit grid) cuts.rowStarts

theorem increment_decodes (name : String) (min max : Nat) :
    Read.Decodes (Field.increment name min max).read (fun value => min ≤ value ∧ value ≤ max)
      (Increment.code min max) := by
  refine (Field.read_decodes (Field.increment name min max)
    (Increment.read_decodes min max)).congr (fun value => ?_) fun _ _ => rfl
  have top : max ≤ Nat.max max min := Nat.le_max_left ..
  simp only [Field.increment]
  omega

theorem increment_appends (name : String) {min max value : Nat}
    (inside : min ≤ value ∧ value ≤ max) :
    Write.Appends ((Field.increment name min max).write value) (Increment.code min max value) () :=
  Field.write_appends inside
    (Increment.write_appends inside.1 (Nat.le_trans inside.2 (Nat.le_max_left ..)))

theorem readUniform_decodes (grid : SuperblockGrid) :
    Read.Decodes (readUniform grid) (IsUniform grid) (uniformCode grid) := by
  have decodes := (increment_decodes "increment_tile_cols_log2" grid.minLog2Cols
    grid.maxLog2Cols).bind (fun colsLog2 _ =>
      (increment_decodes "increment_tile_rows_log2" (grid.minLog2Rows colsLog2)
        grid.maxLog2Rows).bind (fun rowsLog2 _ => Read.Decodes.pure (uniform grid colsLog2 rowsLog2))
      Cuts.rowsLog2 fun _ _ _ starts => congrArg Cuts.rowsLog2 starts)
    Cuts.colsLog2 fun _ _ _ legal => congrArg Cuts.colsLog2 legal.2
  refine decodes.congr (fun cuts => ?_) fun cuts _ => by simp [uniformCode]
  constructor
  · rintro ⟨cols, rows, starts⟩
    exact ⟨cols, rows, starts⟩
  · rintro ⟨cols, rows, starts⟩
    exact ⟨cols, rows, starts⟩

theorem readAxis_decodes {count : Nat} (narrow : count < 2 ^ 64) (name : String) (limit : Nat) :
    Read.Decodes (readStarts name count limit maxTilesPerAxis 0) (IsAxis count limit)
      (startsCode count limit) :=
  readStarts_decodes narrow name limit (Nat.zero_le count)

theorem readExplicit_decodes (narrow : grid.Narrow) :
    Read.Decodes (readExplicit grid) (IsExplicit grid) (explicitCode grid) := by
  have decodes := (readAxis_decodes narrow.sbCols columnName grid.maxTileWidthSb).bind
    (fun colStarts _ =>
      (readAxis_decodes narrow.sbRows rowName
        (grid.maxTileHeightSb (largest (tileSizes colStarts)))).bind
        (fun rowStarts _ => Read.Decodes.pure (explicit colStarts rowStarts))
      Cuts.rowStarts fun _ _ _ logs => congrArg Cuts.rowStarts logs)
    Cuts.colStarts fun _ _ _ legal => congrArg Cuts.colStarts legal.2
  refine decodes.congr (fun cuts => ?_) fun cuts _ => by simp [explicitCode, heightLimit]
  constructor
  · rintro ⟨cols, rows, logs⟩
    exact ⟨cols, rows, logs⟩
  · rintro ⟨cols, rows, logs⟩
    exact ⟨cols, rows, logs⟩

theorem tileCount_eq_ok {cuts : Cuts} {tiles : Nat} :
    cuts.tileCount = .ok tiles ↔
      (cuts.colStarts.length - 1 ≤ SuperblockGrid.maxTileColumns ∧
        cuts.rowStarts.length - 1 ≤ SuperblockGrid.maxTileRows) ∧
      tiles = (cuts.colStarts.length - 1) * (cuts.rowStarts.length - 1) := by
  simp only [tileCount]
  split
  next many =>
    constructor
    · intro impossible
      cases impossible
    · rintro ⟨few, -⟩
      omega
  next few =>
    constructor
    · intro same
      cases same
      exact ⟨by omega, rfl⟩
    · rintro ⟨-, rfl⟩
      rfl

end Cuts

/-- The cuts of a layout. -/
def cuts (layout : TileLayout) : Cuts where
  colsLog2 := layout.colsLog2
  rowsLog2 := layout.rowsLog2
  colStarts := layout.colStarts
  rowStarts := layout.rowStarts

/-- The context tile and the size of tile sizes that a layout of `tiles` tiles may have. -/
def RestLegal (bits tiles : Nat) (rest : Nat × Nat) : Prop :=
  if 0 < bits then
    (bits ≤ 64 ∧ rest.1 < 2 ^ bits ∧ rest.1 < tiles) ∧ 1 ≤ rest.2 ∧ rest.2 ≤ 4
  else rest.1 = 0 ∧ rest.2 = defaultTileSizeBytes

/-- What a layout says of its tiles is legal for the grid. -/
structure Expressible (layout : TileLayout) : Prop where
  cuts : if layout.uniform then layout.cuts.IsUniform layout.grid
    else layout.cuts.IsExplicit layout.grid
  tiles : layout.columns ≤ SuperblockGrid.maxTileColumns ∧
    layout.rows ≤ SuperblockGrid.maxTileRows
  rest : RestLegal layout.tileBits layout.tileCount (layout.contextTile, layout.tileSizeBytes)

/-- The bits of the cuts of a layout. -/
def cutsCode (grid : SuperblockGrid) (uniform : Bool) (cuts : Cuts) : Bits :=
  if uniform then cuts.uniformCode grid else cuts.explicitCode grid

/-- The bits of the context tile and the size of tile sizes. -/
def restCode (bits : Nat) (rest : Nat × Nat) : Bits :=
  if 0 < bits then Bits.ofNat bits rest.1 ++ Bits.ofNat 2 (rest.2 - 1) else []

/-- The bits of a layout. -/
def code (layout : TileLayout) : Bits :=
  [layout.uniform] ++ (cutsCode layout.grid layout.uniform layout.cuts ++
    restCode layout.tileBits (layout.contextTile, layout.tileSizeBytes))

theorem contextField_eq_ok {bits tiles : Nat} {field : Field} :
    contextField bits tiles = .ok field ↔
      1 ≤ tiles ∧ field = (Field.bits "context_update_tile_id" bits).withRange 0 (tiles - 1) := by
  simp only [contextField, Checked.sub]
  split
  next some =>
    constructor
    · intro same
      cases same
      exact ⟨some, rfl⟩
    · rintro ⟨-, rfl⟩
      rfl
  next none =>
    constructor
    · intro impossible
      cases impossible
    · rintro ⟨some, -⟩
      exact absurd some none

/-- Reads the context tile and the size of tile sizes. -/
def readRest (bits tiles : Nat) : Read (Nat × Nat) :=
  if 0 < bits then do
    let contextTile ← (← contextField bits tiles).read
    let tileSizeBytes := (← tileSizeBytesField.read) + 1
    pure (contextTile, tileSizeBytes)
  else
    pure (0, defaultTileSizeBytes)

theorem tileSizeBytesField_decodes :
    Read.Decodes tileSizeBytesField.read (· < 4) (Bits.ofNat 2) := by
  refine (Field.read_decodes tileSizeBytesField (Read.bits_decodes 2)).congr
    (fun value => ?_) fun _ _ => rfl
  have top : tileSizeBytesField.max = 3 := rfl
  have bottom : tileSizeBytesField.min = 0 := rfl
  rw [top, bottom]
  omega

theorem readRest_decodes (bits tiles : Nat) :
    Read.Decodes (readRest bits tiles) (RestLegal bits tiles) (restCode bits) := by
  by_cases several : 0 < bits
  · rw [readRest, if_pos several]
    by_cases some : 1 ≤ tiles
    · rw [Step.liftFault_bind (contextField_eq_ok.2 ⟨some, rfl⟩)]
      have decodes := (Field.read_decodes
        ((Field.bits "context_update_tile_id" bits).withRange 0 (tiles - 1))
        (Read.bits_decodes bits)).bind
        (fun contextTile _ => tileSizeBytesField_decodes.bind
          (fun size _ => Read.Decodes.pure (contextTile, size + 1))
          (fun rest => rest.2 - 1) fun _ _ _ same => congrArg (fun rest => rest.2 - 1) same)
        Prod.fst fun _ _ _ legal => congrArg Prod.fst legal.2
      refine decodes.congr (fun rest => ?_) fun rest _ => by rw [restCode, if_pos several]; simp
      obtain ⟨contextTile, tileSizeBytes⟩ := rest
      simp only [RestLegal, several, if_true, Field.withRange, Prod.mk.injEq, true_and]
      omega
    · constructor
      · intro rest pos legal
        rw [RestLegal, if_pos several] at legal
        omega
      · intro reader rest behind run
        obtain ⟨field, _, first, -⟩ := Step.bind_eq_ok.1 run
        exact absurd (contextField_eq_ok.1 (Step.liftFault_eq_ok.1 first).1).1 some
  · rw [readRest, if_neg several]
    refine (Read.Decodes.pure (0, defaultTileSizeBytes)).congr (fun rest => ?_) fun rest _ => ?_
    · rw [RestLegal, if_neg several, Prod.ext_iff]
    · rw [restCode, if_neg several]

theorem read_eq (grid : SuperblockGrid) :
    read grid = uniformFlag.readFlag >>= fun uniform =>
      (if uniform then Cuts.readUniform grid else Cuts.readExplicit grid) >>= fun cuts =>
        liftM cuts.tileCount >>= fun tiles =>
          readRest cuts.tileBits tiles >>= fun rest =>
            pure {
              grid, uniform, contextTile := rest.1, tileSizeBytes := rest.2
              colsLog2 := cuts.colsLog2, rowsLog2 := cuts.rowsLog2
              colStarts := cuts.colStarts, rowStarts := cuts.rowStarts } := by
  unfold read readRest
  refine bind_congr fun uniform => ?_
  cases uniform <;> simp only [Bool.false_eq_true, if_true, if_false] <;>
  · refine bind_congr fun cuts => bind_congr fun tiles => ?_
    split <;> simp only [bind_assoc, pure_bind]

/-- The layouts that are read from some bits are those that can be expressed, from their codes. -/
theorem read_decodes {grid : SuperblockGrid} (narrow : grid.Narrow) :
    Read.Decodes (read grid) (fun layout => layout.grid = grid ∧ layout.Expressible) code := by
  have flag : Read.Decodes uniformFlag.readFlag (fun _ => True) fun value => [value] :=
    Field.readFlag_decodes "uniform_tile_spacing_flag"
  have decodes := flag.bind
    (fun uniform _ =>
      (Read.Decodes.ite (p := uniform) (Cuts.readUniform_decodes grid)
        (Cuts.readExplicit_decodes narrow)).bind
        (fun cuts _ => (Read.Decodes.lift cuts.tileCount).bind
          (fun tiles _ => (readRest_decodes cuts.tileBits tiles).bind
            (fun rest _ => Read.Decodes.pure ({
              grid, uniform, contextTile := rest.1, tileSizeBytes := rest.2
              colsLog2 := cuts.colsLog2, rowsLog2 := cuts.rowsLog2
              colStarts := cuts.colStarts, rowStarts := cuts.rowStarts } : TileLayout))
            (fun layout => (layout.contextTile, layout.tileSizeBytes))
            fun _ _ _ same =>
              congrArg (fun layout => (layout.contextTile, layout.tileSizeBytes)) same)
          tileCount
          fun _ _ counted legal =>
            (congrArg tileCount legal.2).trans (Cuts.tileCount_eq_ok.1 counted).2.symm)
        TileLayout.cuts
        fun _ _ _ legal => congrArg TileLayout.cuts legal.2.2)
    TileLayout.uniform
    fun _ _ _ legal => congrArg TileLayout.uniform legal.2.2.2
  rw [← read_eq] at decodes
  refine decodes.congr (fun layout => ?_) ?_
  · rw [Cuts.tileCount_eq_ok]
    constructor
    · rintro ⟨-, cuts, ⟨tiles, -⟩, rest, same⟩
      have grid_eq : layout.grid = grid := congrArg TileLayout.grid same
      refine ⟨grid_eq, ?_, tiles, rest⟩
      rw [grid_eq]
      exact cuts
    · rintro ⟨rfl, cuts, tiles, rest⟩
      exact ⟨trivial, cuts, ⟨tiles, rfl⟩, rest, rfl⟩
  · rintro layout ⟨rfl, -⟩
    rw [List.nil_append, List.append_nil]
    rfl

/-! ## Writing -/

theorem writeUniform_appends {layout : TileLayout}
    (legal : layout.cuts.IsUniform layout.grid) :
    Write.Appends layout.writeUniform (layout.cuts.uniformCode layout.grid) layout.cuts := by
  have cols := Cuts.increment_appends "increment_tile_cols_log2" legal.cols
  have rows := Cuts.increment_appends "increment_tile_rows_log2" legal.rows
  have run : Write.Appends layout.writeUniform (layout.cuts.uniformCode layout.grid)
      (Cuts.uniform layout.grid layout.cuts.colsLog2 layout.cuts.rowsLog2) :=
    cols.bind (rows.map fun _ => _)
  rwa [← legal.starts] at run

theorem writeExplicit_appends {layout : TileLayout} (narrow : layout.grid.Narrow)
    (legal : layout.cuts.IsExplicit layout.grid) :
    Write.Appends layout.writeExplicit (layout.cuts.explicitCode layout.grid) layout.cuts := by
  obtain ⟨⟨colHead, colCut, colShort⟩, ⟨rowHead, rowCut, rowShort⟩, logs⟩ := legal
  have cols := writeStarts_appends narrow.sbCols columnName _ colHead colCut colShort
  have rows := writeStarts_appends narrow.sbRows rowName _ rowHead rowCut rowShort
  have run : Write.Appends layout.writeExplicit (layout.cuts.explicitCode layout.grid)
      (Cuts.explicit layout.cuts.colStarts layout.cuts.rowStarts) :=
    cols.bind (rows.map fun _ => _)
  rwa [← logs] at run

/-- Writes the context tile and the size of tile sizes. -/
def writeRest (bits tiles : Nat) (rest : Nat × Nat) : Write Unit := do
  if 0 < bits then
    (← contextField bits tiles).write rest.1
    tileSizeBytesField.write (rest.2 - 1)

theorem writeRest_appends {bits tiles : Nat} {rest : Nat × Nat}
    (legal : RestLegal bits tiles rest) :
    Write.Appends (writeRest bits tiles rest) (restCode bits rest) () := by
  rw [RestLegal] at legal
  rw [writeRest, restCode]
  split
  next several =>
    obtain ⟨⟨narrow, fits, below⟩, least, greatest⟩ := (if_pos several).mp legal
    rw [Step.liftFault_bind (contextField_eq_ok.2 ⟨by omega, rfl⟩)]
    have context : Write.Appends
        (((Field.bits "context_update_tile_id" bits).withRange 0 (tiles - 1)).write rest.1)
        (Bits.ofNat bits rest.1) () :=
      Field.write_appends ⟨Nat.zero_le _, Nat.le_sub_one_of_lt below⟩
        (Write.bits_appends _ _ narrow)
    refine context.bind
      (Field.write_appends ⟨Nat.zero_le _, ?_⟩ (Write.bits_appends _ 2 (by decide)))
    change rest.2 - 1 ≤ 3
    omega
  next single => exact .pure _

theorem write_eq (layout : TileLayout) :
    layout.write = uniformFlag.writeFlag layout.uniform >>= fun _ =>
      (if layout.uniform then layout.writeUniform else layout.writeExplicit) >>= fun cuts =>
        liftM cuts.tileCount >>= fun tiles =>
          writeRest cuts.tileBits tiles (layout.contextTile, layout.tileSizeBytes) := by
  unfold write writeRest
  cases layout.uniform <;> rfl

/-- A layout that can be expressed is written as its code. -/
theorem write_appends {layout : TileLayout} (narrow : layout.grid.Narrow)
    (expressible : layout.Expressible) : Write.Appends layout.write layout.code () := by
  have cuts : Write.Appends (if layout.uniform then layout.writeUniform else layout.writeExplicit)
      (cutsCode layout.grid layout.uniform layout.cuts) layout.cuts := by
    have legal := expressible.cuts
    rw [cutsCode]
    split
    next uniform => exact writeUniform_appends ((if_pos uniform).mp legal)
    next explicit => exact writeExplicit_appends narrow ((if_neg explicit).mp legal)
  have tiles : layout.cuts.tileCount = .ok layout.tileCount :=
    Cuts.tileCount_eq_ok.2 ⟨expressible.tiles, rfl⟩
  rw [write_eq]
  refine (Field.writeFlag_appends _ layout.uniform).bind (cuts.bind ?_)
  rw [Step.lift_bind tiles]
  exact writeRest_appends expressible.rest

/-- What is written for a layout that can be expressed is read as that layout, all of it. -/
theorem code_yields {layout : TileLayout} (narrow : layout.grid.Narrow)
    (expressible : layout.Expressible) (pos : Nat) :
    (read layout.grid).Yields pos layout.code layout :=
  (read_decodes narrow).yields layout pos ⟨rfl, expressible⟩

/-- The code of a layout is canonical: a layout that was read is written as just the bits that it
    was read from, wherever in a byte the reader stood and the writer stands. -/
theorem write_of_read {grid : SuperblockGrid} (inRange : grid.InRange)
    {reader behind : BitReader} {layout : TileLayout}
    (run : read grid reader = .ok layout behind) :
    ∃ used, reader.Advances used behind ∧ Write.Appends layout.write used () := by
  obtain ⟨⟨rfl, expressible⟩, advances⟩ := (read_decodes inRange.narrow).sound run
  exact ⟨layout.code, advances, write_appends inRange.narrow expressible⟩

/-- Three explicit columns of ten superblocks, from the fourth bit of a byte on. -/
theorem write_of_read_three_columns :
    (⟨1920, 1080, false⟩ : SuperblockGrid).InRange ∧
      ∃ layout, read ⟨1920, 1080, false⟩ ⟨3, [false] ++ (Bits.ofNat 5 11 ++ Bits.ofNat 5 19 ++
          Bits.ofNat 4 15 ++ Bits.ofNat 4 15) ++ Bits.ofNat 2 2 ++ Bits.ofNat 2 0 ++ [true, true]⟩ =
          .ok layout ⟨26, [true, true]⟩ ∧
        layout.uniform = false ∧ layout.colStarts = [0, 10, 20, 30] ∧ layout.contextTile = 2 ∧
        ∃ used, used.length = 23 ∧ Write.Appends layout.write used () := by
  have inRange : (⟨1920, 1080, false⟩ : SuperblockGrid).InRange := ⟨by decide, by decide⟩
  have run : Step.Succeeds (fun layout behind => layout.uniform = false ∧
      layout.colStarts = [0, 10, 20, 30] ∧ layout.contextTile = 2 ∧
      behind.pos = 26 ∧ behind.rest = [true, true])
      (read ⟨1920, 1080, false⟩ ⟨3, [false] ++ (Bits.ofNat 5 11 ++ Bits.ofNat 5 19 ++
        Bits.ofNat 4 15 ++ Bits.ofNat 4 15) ++ Bits.ofNat 2 2 ++ Bits.ofNat 2 0 ++
        [true, true]⟩) := by decide +kernel
  obtain ⟨layout, ⟨_, _⟩, run, explicit, cols, context, rfl, rfl⟩ := run.eq_ok
  obtain ⟨used, advances, appends⟩ := write_of_read inRange run
  have length : 26 = 3 + used.length := advances.pos
  exact ⟨inRange, layout, run, explicit, cols, context, used, by omega, appends⟩

end TileLayout

end Av1Tiling
