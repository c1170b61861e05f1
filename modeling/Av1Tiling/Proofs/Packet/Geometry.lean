import Av1Tiling.Packet.Repacker
import Av1Tiling.Packet.Splitter
import Av1Tiling.Proofs.Frame.Safety
import Av1Tiling.Proofs.Packet.TileInfo
import Av1Tiling.Proofs.Tile.Pixels

/-!
# Tiles in their frame

The geometry that a splitter gives to a tile says at which of the frame's columns and rows it starts
(`TileGeometry.At`). From the geometries of all tiles a repacker collects just these columns and
rows, and finds the layout that the frame has in the unit.
-/

namespace Av1Tiling

namespace TileGeometry

/-- Tile `tile` of a frame whose tiles are placed so. -/
structure At (placement : Placement) (tile : Nat) (geometry : TileGeometry) : Prop where
  width : geometry.width = placement.width
  height : geometry.height = placement.height
  columns : geometry.columns = placement.xs.length
  rows : geometry.rows = placement.ys.length
  x : placement.xs[tile % placement.xs.length]? = some geometry.x
  y : placement.ys[tile / placement.xs.length]? = some geometry.y
  words : ∀ value ∈ TileInfo.geometryWords geometry, TileInfo.Word value

theorem fullFrame_at {width height : Nat} (wide : TileInfo.Word width)
    (high : TileInfo.Word height) : (fullFrame width height).At (.single width height) 0 := by
  refine ⟨rfl, rfl, rfl, rfl, rfl, by simp [Placement.single, fullFrame], ?_⟩
  have zero : TileInfo.Word 0 := Nat.two_pow_pos 32
  have one : TileInfo.Word 1 := Nat.one_lt_two_pow (by decide)
  simp only [TileInfo.geometryWords, fullFrame, List.forall_mem_cons]
  exact ⟨wide, high, one, one, zero, zero, wide, high, by rintro _ ⟨⟩⟩

end TileGeometry

/-- Each tile of a layout sits where the layout has it. -/
theorem TileSplitter.Split.placeIn_eq_ok {layout : TileLayout} (inRange : layout.grid.InRange)
    (expressible : layout.Expressible) {tile : Nat} (inside : tile < layout.tileCount) :
    ∃ geometry, placeIn layout tile = .ok geometry ∧ geometry.At layout.placement tile := by
  have startsAt := expressible.startsAt
  obtain ⟨col, row, rect, atCol, atRow, found, x, y, wide, high⟩ :=
    TileLayout.rect?_eq_some startsAt inside
  obtain ⟨colsInside, rowsInside⟩ := startsAt.inside inRange expressible
  have left := colsInside col (List.mem_of_getElem? atCol)
  have top := rowsInside row (List.mem_of_getElem? atRow)
  have superblock := (TileLayout.superblockSize_bounds layout.grid).2
  have width := inRange.width.2
  have height := inRange.height.2
  have sbCols : layout.grid.sbCols ≤ 1024 := by
    have bound := inRange.sbCols.2
    split at bound <;> omega
  have sbRows : layout.grid.sbRows ≤ 1024 := by
    have bound := inRange.sbRows.2
    split at bound <;> omega
  have columns := expressible.tiles.1
  have rows := expressible.tiles.2
  rw [SuperblockGrid.maxSide] at width height
  rw [SuperblockGrid.maxTileColumns] at columns
  rw [SuperblockGrid.maxTileRows] at rows
  have xBound : rect.x ≤ 1024 * 128 := by
    rw [x]
    exact Nat.mul_le_mul (by omega) superblock
  have yBound : rect.y ≤ 1024 * 128 := by
    rw [y]
    exact Nat.mul_le_mul (by omega) superblock
  rw [placeIn, found]
  refine ⟨_, rfl, rfl, rfl, expressible.placement_columns.symm, expressible.placement_rows.symm,
    ?_, ?_, ?_⟩
  · rw [TileLayout.placement, List.length_map, List.getElem?_map, atCol, x]
    rfl
  · rw [TileLayout.placement, List.length_map, List.getElem?_map, atRow, y]
    rfl
  · simp only [TileInfo.geometryWords, List.forall_mem_cons, TileInfo.Word]
    refine ⟨?_, ?_, ?_, ?_, ?_, ?_, ?_, ?_, by rintro _ ⟨⟩⟩ <;> omega

/-! ## Collecting the tiles -/

/-- A loop whose turns all go on. -/
theorem Checked.forIn_eq_ok {ε α : Type} {items : List α}
    {turn : α → PUnit → Except ε (ForInStep PUnit)}
    (each : ∀ item ∈ items, turn item ⟨⟩ = .ok (.yield ⟨⟩)) :
    forIn items ⟨⟩ turn = .ok ⟨⟩ := by
  induction items with
  | nil => rfl
  | cons item rest ih =>
    obtain ⟨first, later⟩ := List.forall_mem_cons.1 each
    rw [List.forIn_cons, first]
    exact ih later

/-- A loop that has come through has come through each of its turns, if none of them ends it. -/
theorem Checked.each_of_forIn {ε α : Type} {items : List α}
    {turn : α → PUnit.{1} → Except ε (ForInStep PUnit.{1})}
    (goesOn : ∀ item next, turn item ⟨⟩ = .ok next → next = .yield ⟨⟩)
    (run : forIn items ⟨⟩ turn = .ok ⟨⟩) : ∀ item ∈ items, turn item ⟨⟩ = .ok (.yield ⟨⟩) := by
  induction items with
  | nil => rintro _ ⟨⟩
  | cons item rest ih =>
    rw [List.forIn_cons] at run
    obtain ⟨next, first, run⟩ := Checked.bind_eq_ok.1 run
    obtain rfl := goesOn item next first
    exact List.forall_mem_cons.2 ⟨first, ih run⟩

namespace TileGrid

theorem zipIdx_map_range {α : Type} (f : Nat → α) (count : Nat) :
    ((List.range count).map f).zipIdx = (List.range count).map fun index => (f index, index) := by
  induction count with
  | zero => rfl
  | succ count ih =>
    rw [List.range_succ, List.map_append, List.map_append, List.zipIdx_append, ih]
    simp

/-- The first tiles of the rows, where each row has `columns` tiles. -/
theorem filter_range_mul {columns : Nat} (positive : 0 < columns) (rows : Nat) :
    (List.range (columns * rows)).filter (· % columns == 0) =
      (List.range rows).map (columns * ·) := by
  induction rows with
  | zero => rfl
  | succ rows ih =>
    have last : ((List.range columns).map (columns * rows + ·)).filter (· % columns == 0) =
        [columns * rows] := by
      obtain ⟨others, rfl⟩ : ∃ others, columns = others + 1 := ⟨columns - 1, by omega⟩
      rw [List.range_succ_eq_map, List.map_cons, List.filter_cons, if_pos (by simp)]
      refine congrArg (_ :: ·) (List.filter_eq_nil_iff.2 fun index member => ?_)
      simp only [List.mem_map, List.mem_range] at member
      obtain ⟨_, ⟨column, inside, rfl⟩, rfl⟩ := member
      rw [Nat.mul_add_mod, Nat.mod_eq_of_lt (by omega)]
      simp
    rw [Nat.mul_succ, List.range_add, List.filter_append, ih, last, List.range_succ,
      List.map_append, List.map_singleton]

variable {placement : Placement} {count : Nat} {geometry : Nat → TileGeometry}

theorem mismatch?_eq_none (total : count = placement.xs.length * placement.ys.length)
    (placed : ∀ tile < count, (geometry tile).At placement tile) {tile : Nat}
    (inside : tile < count) :
    mismatch? (geometry 0) ((List.range count).map geometry) tile (geometry tile) = none := by
  have first := placed 0 (by omega)
  have own := placed tile inside
  have columns := first.columns
  have positive : 0 < placement.xs.length := by
    refine Nat.pos_of_ne_zero fun none => ?_
    rw [total, none, Nat.zero_mul] at inside
    exact Nat.not_lt_zero _ inside
  have rest : tile % placement.xs.length ≤ tile := Nat.mod_le ..
  have topInside : tile % placement.xs.length < count := by omega
  have leftInside : tile - tile % placement.xs.length < count := by omega
  have top := placed _ topInside
  have left := placed _ leftInside
  have x : (geometry (tile % placement.xs.length)).x = (geometry tile).x := by
    have same := top.x
    rw [Nat.mod_mod, own.x] at same
    exact (Option.some.inj same).symm
  have row : (tile - tile % placement.xs.length) / placement.xs.length =
      tile / placement.xs.length := by
    have split := Nat.div_add_mod tile placement.xs.length
    have start : tile - tile % placement.xs.length =
        placement.xs.length * (tile / placement.xs.length) := by omega
    rw [start, Nat.mul_div_cancel_left _ positive]
  have y : (geometry (tile - tile % placement.xs.length)).y = (geometry tile).y := by
    have same := left.y
    rw [row, own.y] at same
    exact (Option.some.inj same).symm
  simp only [mismatch?, columns, List.getElem?_map, List.getElem?_range topInside,
    List.getElem?_range leftInside, Option.map_some, x, y, own.width, own.height, own.columns,
    own.rows, first.width, first.height, first.rows, ne_eq, not_true_eq_false, if_false]

theorem map_range_eq {α : Type} {f : Nat → α} {items : List α}
    (same : ∀ index < items.length, items[index]? = some (f index)) :
    (List.range items.length).map f = items := by
  rw [← List.filterMap_eq_map]
  exact filterMap_range fun index inside => (same index inside).symm

/-- Items by their index, with anything behind the last one. -/
theorem map_range_getD {α : Type} (items : List α) (other : α) :
    (List.range items.length).map (items.getD · other) = items :=
  map_range_eq fun index inside => by
    rw [List.getD_eq_getElem?_getD, List.getElem?_eq_getElem inside, Option.getD_some]

/-- The tiles of the first row say where the columns start. -/
theorem map_x_eq (row : placement.xs.length ≤ count)
    (placed : ∀ tile < count, (geometry tile).At placement tile) :
    (((List.range count).map geometry).take placement.xs.length).map TileGeometry.x =
      placement.xs := by
  rw [← List.map_take, List.take_range, Nat.min_eq_left row, List.map_map]
  apply map_range_eq
  intro index inside
  have here := (placed index (by omega)).x
  rw [Nat.mod_eq_of_lt inside] at here
  exact here

/-- The first tiles of the rows, where each row has `columns` tiles. -/
theorem map_first_eq {columns : Nat} (positive : 0 < columns) (rows : Nat)
    (geometry : Nat → TileGeometry) :
    (((List.range (columns * rows)).map geometry).zipIdx.filter fun item =>
      item.2 % columns == 0).map (fun item => item.1.y) =
      (List.range rows).map fun row => (geometry (columns * row)).y := by
  have starts : (List.range (columns * rows)).filter
      ((fun item : TileGeometry × Nat => item.2 % columns == 0) ∘ fun index =>
        (geometry index, index)) = (List.range rows).map (columns * ·) :=
    filter_range_mul positive rows
  rw [zipIdx_map_range, List.filter_map, List.map_map, starts, List.map_map]
  rfl

/-- The first tiles of the rows say where the rows start. -/
theorem map_y_eq (positive : 0 < placement.xs.length)
    (total : count = placement.xs.length * placement.ys.length)
    (placed : ∀ tile < count, (geometry tile).At placement tile) :
    (((List.range count).map geometry).zipIdx.filter fun item =>
      item.2 % placement.xs.length == 0).map (fun item => item.1.y) = placement.ys := by
  rw [total, map_first_eq positive]
  apply map_range_eq
  intro index inside
  have less : placement.xs.length * index < count := by
    rw [total]
    exact Nat.mul_lt_mul_of_pos_left inside positive
  have here := (placed _ less).y
  rw [Nat.mul_div_cancel_left _ positive] at here
  exact here

/-- The geometries of all tiles make up the frame that they are taken from. -/
theorem collect_eq_ok (total : count = placement.xs.length * placement.ys.length) (some : 0 < count)
    (word : TileInfo.Word count)
    (placed : ∀ tile < count, (geometry tile).At placement tile) :
    collect (geometry 0) ((List.range count).map geometry) =
      .ok ⟨geometry 0, placement.xs, placement.ys⟩ := by
  have first := placed 0 some
  have positive : 0 < placement.xs.length := Nat.pos_of_mul_pos_right (total ▸ some)
  have row : placement.xs.length ≤ count := by
    rw [total]
    exact Nat.le_mul_of_pos_right _ (Nat.pos_of_mul_pos_left (total ▸ some))
  have tiles : (geometry 0).tileCount = count := by
    rw [TileGeometry.tileCount, first.columns, first.rows, total]
  have loop : ∀ item ∈ ((List.range count).map geometry).zipIdx,
      mismatch? (geometry 0) ((List.range count).map geometry) item.2 item.1 = none := by
    intro item member
    rw [zipIdx_map_range] at member
    obtain ⟨tile, inside, rfl⟩ := List.mem_map.1 member
    exact mismatch?_eq_none total placed (List.mem_range.1 inside)
  have all : ¬count ≠ ((List.range count).map geometry).length := by
    rw [List.length_map, List.length_range]
    exact not_not_intro rfl
  have counted : (liftM (Checked.word count) : Except (Failure PacketError) Nat) = .ok count :=
    Checked.lift_eq_ok.2 (Checked.word_eq_ok word)
  rw [collect, tiles, Checked.bind_of_ok counted]
  simp only [all, if_false]
  rw [Checked.bind_of_ok (Checked.forIn_eq_ok fun item member => ?_), first.columns,
    map_x_eq row placed, map_y_eq positive total placed]
  · rfl
  · rw [loop item member]
    rfl

/-- Nothing is wrong with a geometry of the same grid of the same frame on the column of the top of
    its column and on the row of the left end of its row. -/
theorem of_mismatch?_eq_none {first geometry : TileGeometry} {geometries : List TileGeometry}
    {index : Nat} (fits : mismatch? first geometries index geometry = none) :
    (geometry.width = first.width ∧ geometry.height = first.height) ∧
      (geometry.columns = first.columns ∧ geometry.rows = first.rows) ∧
      geometries[index % first.columns]?.map TileGeometry.x = some geometry.x ∧
      geometries[index - index % first.columns]?.map TileGeometry.y = some geometry.y := by
  unfold mismatch? at fits
  by_cases size : (geometry.width, geometry.height) ≠ (first.width, first.height)
  · simp only [if_pos size, reduceCtorEq] at fits
  by_cases grid : (geometry.columns, geometry.rows) ≠ (first.columns, first.rows)
  · simp only [if_neg size, if_pos grid, reduceCtorEq] at fits
  by_cases x : some geometry.x ≠ geometries[index % first.columns]?.map TileGeometry.x
  · simp only [if_neg size, if_neg grid, if_pos x, reduceCtorEq] at fits
  by_cases y : some geometry.y ≠ geometries[index - index % first.columns]?.map TileGeometry.y
  · simp only [if_neg size, if_neg grid, if_neg x, if_pos y, reduceCtorEq] at fits
  exact ⟨Prod.mk.inj (Decidable.not_not.1 size), Prod.mk.inj (Decidable.not_not.1 grid),
    (Decidable.not_not.1 x).symm, (Decidable.not_not.1 y).symm⟩

/-- The geometry says that the tile of the given index lies in this frame, on one of its columns and
    one of its rows. -/
structure Places (grid : TileGrid) (index : Nat) (geometry : TileGeometry) : Prop where
  width : geometry.width = grid.geometry.width
  height : geometry.height = grid.geometry.height
  columns : geometry.columns = grid.xs.length
  rows : geometry.rows = grid.ys.length
  x : grid.xs[index % grid.xs.length]? = some geometry.x
  y : grid.ys[index / grid.xs.length]? = some geometry.y

/-- The frame that some geometries make up: they are as many as the first one says, and each of them
    says that its tile lies in this frame. -/
structure Collected (first : TileGeometry) (geometries : List TileGeometry) (grid : TileGrid) :
    Prop where
  geometry : grid.geometry = first
  columns : grid.xs.length = first.columns
  rows : grid.ys.length = first.rows
  total : geometries.length = grid.xs.length * grid.ys.length
  places : ∀ index geometry, geometries[index]? = some geometry → grid.Places index geometry

/-- A grid is collected from as many geometries as the first one says, with which nothing is wrong;
    the first row says where its columns start, and the first tiles of the rows where its rows do. -/
theorem of_collect {first : TileGeometry} {geometries : List TileGeometry} {grid : TileGrid}
    (success : collect first geometries = .ok grid) :
    first.columns * first.rows = geometries.length ∧
      grid = ⟨first, (geometries.take first.columns).map TileGeometry.x,
        (geometries.zipIdx.filter fun item => item.2 % first.columns == 0).map
          fun item => item.1.y⟩ ∧
      ∀ item ∈ geometries.zipIdx, mismatch? first geometries item.2 item.1 = none := by
  obtain ⟨tiles, counted, success⟩ := Checked.bind_eq_ok.1 success
  obtain ⟨-, rfl⟩ := Checked.word_eq_ok_iff.1 (Checked.lift_eq_ok.1 counted)
  by_cases all : first.tileCount ≠ geometries.length
  · rw [if_pos all] at success
    cases success
  · rw [if_neg all] at success
    obtain ⟨_, loop, success⟩ := Checked.bind_eq_ok.1 success
    cases success
    have each := Checked.each_of_forIn (by
      rintro ⟨geometry, index⟩ next run
      simp only at run
      split at run <;> cases run
      rfl) loop
    refine ⟨Decidable.not_not.1 all, rfl, fun item member => ?_⟩
    have turn := each item member
    cases fits : mismatch? first geometries item.2 item.1 with
    | none => rfl
    | some field =>
      simp only [fits] at turn
      cases turn

theorem collect_sound {first : TileGeometry} {geometries : List TileGeometry} {grid : TileGrid}
    (success : collect first geometries = .ok grid) (nonempty : geometries ≠ []) :
    Collected first geometries grid := by
  obtain ⟨total, rfl, each⟩ := of_collect success
  obtain ⟨geometry, rfl⟩ : ∃ geometry : Nat → TileGeometry,
      geometries = (List.range (first.columns * first.rows)).map geometry := by
    rw [total]
    exact ⟨_, (map_range_getD geometries first).symm⟩
  have positive : 0 < first.columns * first.rows := by
    rw [total]
    exact List.length_pos_iff.2 nonempty
  have columns : 0 < first.columns := Nat.pos_of_mul_pos_right positive
  have row : first.columns ≤ first.columns * first.rows :=
    Nat.le_mul_of_pos_right _ (Nat.pos_of_mul_pos_left positive)
  have xs : ((((List.range (first.columns * first.rows)).map geometry).take
      first.columns).map TileGeometry.x).length = first.columns := by
    simp only [List.length_map, List.length_take, List.length_range, Nat.min_eq_left row]
  have ys : ((((List.range (first.columns * first.rows)).map geometry).zipIdx.filter
      fun item => item.2 % first.columns == 0).map fun item => item.1.y).length =
      first.rows := by
    rw [map_first_eq columns, List.length_map, List.length_range]
  refine ⟨rfl, xs, ys, ?_, fun index own member => ?_⟩
  · rw [xs, ys, List.length_map, List.length_range]
  · obtain ⟨inside, rfl⟩ := List.getElem?_eq_some_iff.1 member
    rw [List.length_map, List.length_range] at inside
    rw [List.getElem_map, List.getElem_range]
    have come : (geometry index, index) ∈
        ((List.range (first.columns * first.rows)).map geometry).zipIdx := by
      rw [zipIdx_map_range]
      exact List.mem_map.2 ⟨index, List.mem_range.2 inside, rfl⟩
    obtain ⟨⟨width, height⟩, ⟨across, down⟩, x, y⟩ := of_mismatch?_eq_none (each _ come)
    have column : index % first.columns < first.columns := Nat.mod_lt _ columns
    have below : index / first.columns < first.rows := Nat.div_lt_of_lt_mul inside
    have left : index - index % first.columns = first.columns * (index / first.columns) := by
      have split := Nat.div_add_mod index first.columns
      omega
    refine ⟨width, height, across.trans xs.symm, down.trans ys.symm, ?_, ?_⟩
    · rw [xs, ← x, List.getElem?_map, List.getElem?_take_of_lt column]
    · rw [left, List.getElem?_map,
        List.getElem?_range (Nat.mul_lt_mul_of_pos_left below columns)] at y
      rw [xs, map_first_eq columns, List.getElem?_map, List.getElem?_range below]
      exact y

/-- The layout of a frame that is placed as the tiles is kept. -/
theorem layoutFor_own {grid : TileGrid} {frame : FrameHeader} {sequence : SequenceHeader}
    {layout : TileLayout} (cut : frame.layout = some layout) (inRange : layout.grid.InRange)
    (expressible : layout.Expressible) (xs : grid.xs = layout.placement.xs)
    (ys : grid.ys = layout.placement.ys)
    (checked : SuperblockGrid.checked grid.geometry.width grid.geometry.height
      sequence.largeSuperblocks = .ok layout.grid) :
    grid.layoutFor frame sequence = .ok layout := by
  obtain ⟨found, success, same⟩ := TileLayout.ofPixelStarts_own inRange expressible
  have lifted : (liftM (Except.ok layout.grid : Except Fault SuperblockGrid) :
      Except (Failure ObuError) SuperblockGrid) = .ok layout.grid := rfl
  rw [layoutFor, checked, xs, ys, Checked.bind_of_ok lifted]
  simp only [success, pure_bind, cut, same, and_self, if_true]
  rfl

/-- The layout that is written is the one that is found for the collected columns and rows, or that
    of the template, which cuts the same frame at the same places. -/
theorem layoutFor_found {grid : TileGrid} {frame : FrameHeader} {sequence : SequenceHeader}
    {chosen : TileLayout} (success : grid.layoutFor frame sequence = .ok chosen) :
    ∃ found, TileLayout.ofPixelStarts chosen.grid grid.xs grid.ys = .ok found ∧
      SuperblockGrid.checked grid.geometry.width grid.geometry.height sequence.largeSuperblocks =
        .ok chosen.grid ∧
      (chosen = found ∨ frame.layout = some chosen ∧ chosen.sameCuts found = true) := by
  obtain ⟨superblocks, lifted, success⟩ := Checked.bind_eq_ok.1 success
  have checked : SuperblockGrid.checked grid.geometry.width grid.geometry.height
      sequence.largeSuperblocks = .ok superblocks := Checked.lift_eq_ok.1 lifted
  cases placed : TileLayout.ofPixelStarts superblocks grid.xs grid.ys with
  | error cause =>
    simp only [placed] at success
    cases success
  | ok found =>
    obtain ⟨own, -⟩ := TileLayout.ofPixelStarts_sound placed
    simp only [placed, pure_bind] at success
    cases cut : frame.layout with
    | none =>
      simp only [cut] at success
      cases success
      exact ⟨chosen, own ▸ placed, own ▸ checked, .inl rfl⟩
    | some template =>
      simp only [cut] at success
      split at success
      next same =>
        cases success
        obtain ⟨grids, cuts⟩ := same
        exact ⟨found, grids ▸ placed, grids ▸ checked, .inr ⟨rfl, cuts⟩⟩
      next =>
        cases success
        exact ⟨chosen, own ▸ placed, own ▸ checked, .inl rfl⟩

/-- The layout that is written cuts a frame of the collected size at the collected columns and rows,
    and can be expressed if that of the template can. -/
theorem layoutFor_sound {grid : TileGrid} {frame : FrameHeader} {sequence : SequenceHeader}
    {chosen : TileLayout} (success : grid.layoutFor frame sequence = .ok chosen)
    (own : ∀ layout, frame.layout = some layout → layout.Expressible) :
    SuperblockGrid.checked grid.geometry.width grid.geometry.height sequence.largeSuperblocks =
        .ok chosen.grid ∧
      chosen.Expressible ∧ ∃ cols rows, chosen.StartsAt cols rows ∧
        grid.xs = cols.map (· * chosen.grid.superblockSize) ∧
        grid.ys = rows.map (· * chosen.grid.superblockSize) := by
  obtain ⟨found, placed, checked, chose⟩ := layoutFor_found success
  obtain ⟨same, expressible, cols, rows, startsAt, xs, ys⟩ := TileLayout.ofPixelStarts_sound placed
  refine ⟨checked, ?_⟩
  rcases chose with rfl | ⟨cut, cuts⟩
  · exact ⟨expressible, cols, rows, startsAt, xs, ys⟩
  · rw [TileLayout.sameCuts, Bool.and_eq_true, beq_iff_eq, beq_iff_eq] at cuts
    refine ⟨own _ cut, cols, rows, ?_, xs, ys⟩
    rw [TileLayout.StartsAt, cuts.1, cuts.2, ← same]
    exact startsAt

/-- The tiles of the layout that is written lie where their geometries say. -/
theorem rect?_of_layoutFor {grid : TileGrid} {frame : FrameHeader} {sequence : SequenceHeader}
    {first : TileGeometry} {geometries : List TileGeometry} {chosen : TileLayout}
    (collected : collect first geometries = .ok grid) (nonempty : geometries ≠ [])
    (found : grid.layoutFor frame sequence = .ok chosen)
    (own : ∀ layout, frame.layout = some layout → layout.Expressible) :
    chosen.tileCount = geometries.length ∧
      ∀ tile geometry, geometries[tile]? = some geometry →
        geometry.width = first.width ∧ geometry.height = first.height ∧
        ∃ rect, chosen.rect? tile = some rect ∧ rect.x = geometry.x ∧ rect.y = geometry.y := by
  have collected := collect_sound collected nonempty
  obtain ⟨-, -, cols, rows, startsAt, xs, ys⟩ := layoutFor_sound found own
  have count : chosen.tileCount = geometries.length := by
    rw [collected.total, xs, ys, List.length_map, List.length_map, startsAt.tileCount_eq]
  refine ⟨count, fun tile geometry present => ?_⟩
  obtain ⟨width, height, -, -, x, y⟩ := collected.places tile geometry present
  rw [collected.geometry] at width height
  have inside : tile < chosen.tileCount := by
    rw [count]
    exact (List.getElem?_eq_some_iff.1 present).1
  obtain ⟨col, row, rect, atCol, atRow, cut, left, top, -⟩ :=
    TileLayout.rect?_eq_some startsAt inside
  rw [xs, List.length_map, List.getElem?_map, atCol] at x
  rw [xs, ys, List.length_map, List.getElem?_map, atRow] at y
  exact ⟨width, height, rect, cut, left.trans (Option.some.inj x), top.trans (Option.some.inj y)⟩

end TileGrid

end Av1Tiling
