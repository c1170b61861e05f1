import Av1Tiling.Proofs.Checked
import Av1Tiling.Proofs.Tile.Layout

/-!
# Layouts for given starts

`ofSuperblockStarts` searches the logarithms of uniform spacing and falls back on explicit sizes.
The search finds logarithms exactly where some yield the starts, as no other ones yield the same, so
a layout is found for starts exactly if some code of a layout has these starts.
-/

namespace Av1Tiling.TileLayout

variable {grid : SuperblockGrid}

/-- The tiles of the layout start at the given superblock columns and rows. -/
def StartsAt (layout : TileLayout) (cols rows : List Nat) : Prop :=
  layout.colStarts = cols ++ [layout.grid.sbCols] ∧ layout.rowStarts = rows ++ [layout.grid.sbRows]

/-- Some bytes begin with a code of the layout. -/
def Coded (grid : SuperblockGrid) (layout : TileLayout) : Prop :=
  ∃ bytes behind, Read.runOn (read grid) bytes = .ok layout behind

/-- The codes at the front of bytes are those of the layouts that can be expressed. -/
theorem coded_iff (narrow : grid.Narrow) (layout : TileLayout) :
    Coded grid layout ↔ layout.grid = grid ∧ layout.Expressible := by
  constructor
  · rintro ⟨bytes, behind, run⟩
    exact ((read_decodes narrow).sound run).1
  · rintro ⟨rfl, expressible⟩
    have whole : (layout.code ++ Write.padding layout.code.length).length % 8 = 0 := by
      rw [List.length_append]
      exact Write.length_padding _
    obtain ⟨bytes, same⟩ := Bits.exists_ofBytes whole
    have run := code_yields narrow expressible 0 (Write.padding layout.code.length)
    rw [← same] at run
    exact ⟨bytes, _, run⟩

/-! ## Closed starts -/

theorem closeStarts_eq_ok {axis : Axis} {starts closed : List Nat} {count : Nat} :
    closeStarts axis starts count = .ok closed ↔
      closed = starts ++ [count] ∧ starts.head? = some 0 ∧ increasing starts = true ∧
        ∀ start ∈ starts, start < count := by
  simp only [closeStarts]
  split
  next wrong =>
    constructor
    · intro impossible
      cases impossible
    · rintro ⟨-, head, -⟩
      exact absurd head wrong
  next head =>
    split
    next wrong =>
      constructor
      · intro impossible
        cases impossible
      · rintro ⟨-, -, sorted, -⟩
        simp [sorted] at wrong
    next sorted =>
      split
      next wrong =>
        constructor
        · intro impossible
          cases impossible
        · rintro ⟨-, -, -, below⟩
          obtain ⟨start, found, past⟩ := List.any_eq_true.1 wrong
          have := below start found
          have := of_decide_eq_true past
          omega
      next inside =>
        constructor
        · intro same
          cases same
          refine ⟨rfl, by simpa using head, by simpa using sorted, fun start found => ?_⟩
          have : ¬count ≤ start := fun past =>
            inside (List.any_eq_true.2 ⟨start, found, decide_eq_true past⟩)
          omega
        · rintro ⟨rfl, -⟩
          rfl

/-- Starts are closed where, with the end, they cut the axis from its first superblock on. -/
theorem closeStarts_of_cut {axis : Axis} {starts : List Nat} {count limit : Nat}
    (positive : 1 ≤ count) (head : (starts ++ [count]).head? = some 0)
    (cut : Cut count limit (starts ++ [count])) :
    closeStarts axis starts count = .ok (starts ++ [count]) := by
  obtain ⟨sorted, below, -⟩ := cut_append_iff.1 cut
  refine closeStarts_eq_ok.2 ⟨rfl, ?_, sorted, below⟩
  cases starts with
  | nil =>
    cases head
    omega
  | cons first rest => exact head

theorem cut_of_closeStarts {axis : Axis} {starts closed : List Nat} {count : Nat}
    (success : closeStarts axis starts count = .ok closed) :
    closed = starts ++ [count] ∧ closed.head? = some 0 ∧
      Cut count (largest (tileSizes closed)) closed ∧ 1 ≤ starts.length ∧ 1 ≤ count := by
  obtain ⟨rfl, head, sorted, below⟩ := closeStarts_eq_ok.1 success
  have cut := cut_append_iff.2 ⟨sorted, below, Nat.le_refl _⟩
  cases starts with
  | nil => cases head
  | cons first rest =>
    have := below first List.mem_cons_self
    exact ⟨rfl, head, cut, Nat.le_add_left .., by omega⟩

/-! ## The search for logarithms -/

theorem find?_between {p : Nat → Bool} {low high found : Nat}
    (single : ∀ a b, a ≤ high → b ≤ high → p a = true → p b = true → a = b) :
    (between low high).find? p = some found ↔
      (low ≤ found ∧ found ≤ high) ∧ p found = true := by
  rw [between, List.find?_range'_eq_some, List.mem_range'_1]
  constructor
  · rintro ⟨holds, inside, -⟩
    exact ⟨by omega, holds⟩
  · rintro ⟨inside, holds⟩
    refine ⟨holds, by omega, fun other least lt => ?_⟩
    cases value : p other with
    | false => rfl
    | true =>
      have := single other found (by omega) inside.2 value holds
      omega

/-- The search finds the logarithms that yield the starts, if there are any. -/
theorem uniformLog2s?_eq_some (cols : 1 ≤ grid.sbCols) (rows : 1 ≤ grid.sbRows)
    {colStarts rowStarts : List Nat} {colsLog2 rowsLog2 : Nat} :
    uniformLog2s? grid colStarts rowStarts = some (colsLog2, rowsLog2) ↔
      (Cuts.uniform grid colsLog2 rowsLog2).IsUniform grid ∧
        uniformStarts grid.sbCols colsLog2 = colStarts ∧
        uniformStarts grid.sbRows rowsLog2 = rowStarts := by
  have colFound : ∀ log2,
      (between grid.minLog2Cols grid.maxLog2Cols).find?
        (fun log2 => uniformStarts grid.sbCols log2 == colStarts) = some log2 ↔
      (grid.minLog2Cols ≤ log2 ∧ log2 ≤ grid.maxLog2Cols) ∧
        uniformStarts grid.sbCols log2 = colStarts := by
    intro log2
    rw [find?_between, beq_iff_eq]
    intro a b ha hb sameA sameB
    exact uniformStarts_injective cols ha hb ((eq_of_beq sameA).trans (eq_of_beq sameB).symm)
  have rowFound : ∀ least log2,
      (between least grid.maxLog2Rows).find?
        (fun log2 => uniformStarts grid.sbRows log2 == rowStarts) = some log2 ↔
      (least ≤ log2 ∧ log2 ≤ grid.maxLog2Rows) ∧
        uniformStarts grid.sbRows log2 = rowStarts := by
    intro least log2
    rw [find?_between, beq_iff_eq]
    intro a b ha hb sameA sameB
    exact uniformStarts_injective rows ha hb ((eq_of_beq sameA).trans (eq_of_beq sameB).symm)
  simp only [uniformLog2s?, Option.bind_eq_bind, Option.bind_eq_some_iff, colFound, rowFound,
    Option.pure_def, Option.some.injEq, Prod.mk.injEq]
  constructor
  · rintro ⟨_, ⟨colRange, colSame⟩, _, ⟨rowRange, rowSame⟩, rfl, rfl⟩
    exact ⟨⟨colRange, rowRange, rfl⟩, colSame, rowSame⟩
  · rintro ⟨⟨colRange, rowRange, -⟩, colSame, rowSame⟩
    exact ⟨_, ⟨colRange, colSame⟩, _, ⟨rowRange, rowSame⟩, rfl, rfl⟩

/-! ## Synthesis -/

theorem log2_le_of_length {starts : List Nat} (few : starts.length - 1 ≤ 64) :
    tileLog2 1 (starts.length - 1) ≤ 6 := by
  rw [tileLog2_le_iff Nat.one_ne_zero]
  exact few

/-- Cuts with few tiles are expressed without a choice of the context tile. -/
theorem ofCuts_expressible {uniform : Bool} {cuts : Cuts}
    (legal : if uniform then cuts.IsUniform grid else cuts.IsExplicit grid)
    (cols : 1 ≤ cuts.colStarts.length - 1 ∧ cuts.colStarts.length - 1 ≤ 64)
    (rows : 1 ≤ cuts.rowStarts.length - 1 ∧ cuts.rowStarts.length - 1 ≤ 64) :
    (ofCuts grid uniform cuts).Expressible := by
  have logs : cuts.colsLog2 ≤ 6 ∧ cuts.rowsLog2 ≤ 6 := by
    cases uniform with
    | true =>
      have legal : cuts.IsUniform grid := legal
      have := grid.maxLog2Cols_le
      have := grid.maxLog2Rows_le
      exact ⟨by have := legal.cols; omega, by have := legal.rows; omega⟩
    | false =>
      have legal : cuts.IsExplicit grid := legal
      rw [legal.logs]
      exact ⟨log2_le_of_length cols.2, log2_le_of_length rows.2⟩
  refine ⟨legal, ⟨cols.2, rows.2⟩, ?_⟩
  rw [RestLegal]
  split
  next several =>
    refine ⟨⟨?_, Nat.two_pow_pos _, Nat.mul_pos cols.1 rows.1⟩, Nat.le_add_left 1 3, Nat.le_refl 4⟩
    change cuts.colsLog2 + cuts.rowsLog2 ≤ 64
    omega
  next single => exact ⟨rfl, rfl⟩

/-- The cuts that are chosen for closed starts. -/
def Chosen (grid : SuperblockGrid) (colStarts rowStarts : List Nat) (layout : TileLayout) : Prop :=
  match uniformLog2s? grid colStarts rowStarts with
  | some (colsLog2, rowsLog2) => layout = ofCuts grid true (.uniform grid colsLog2 rowsLog2)
  | none =>
    largest (tileSizes colStarts) ≤ grid.maxTileWidthSb ∧
      largest (tileSizes rowStarts) ≤ grid.maxTileHeightSb (largest (tileSizes colStarts)) ∧
      layout = ofCuts grid false (.explicit colStarts rowStarts)

theorem ofSuperblockStarts_eq_ok {cols rows : List Nat} {layout : TileLayout} :
    ofSuperblockStarts grid cols rows = .ok layout ↔
      ∃ colStarts rowStarts, closeStarts .column cols grid.sbCols = .ok colStarts ∧
        closeStarts .row rows grid.sbRows = .ok rowStarts ∧
        (cols.length ≤ SuperblockGrid.maxTileColumns ∧
          rows.length ≤ SuperblockGrid.maxTileRows) ∧
        Chosen grid colStarts rowStarts layout := by
  cases colsClosed : closeStarts .column cols grid.sbCols with
  | error cause => simp [ofSuperblockStarts, colsClosed, bind, Except.bind]
  | ok colStarts =>
    cases rowsClosed : closeStarts .row rows grid.sbRows with
    | error cause => simp [ofSuperblockStarts, colsClosed, rowsClosed, bind, Except.bind]
    | ok rowStarts =>
      have closed : (cols.length ≤ SuperblockGrid.maxTileColumns ∧
          rows.length ≤ SuperblockGrid.maxTileRows) ∧ Chosen grid colStarts rowStarts layout ↔
          ∃ c r, Except.ok colStarts = (Except.ok c : Except LayoutError _) ∧
            Except.ok rowStarts = (Except.ok r : Except LayoutError _) ∧
            (cols.length ≤ SuperblockGrid.maxTileColumns ∧
              rows.length ≤ SuperblockGrid.maxTileRows) ∧ Chosen grid c r layout := by
        constructor
        · intro known
          exact ⟨_, _, rfl, rfl, known⟩
        · rintro ⟨_, _, ⟨⟩, ⟨⟩, known⟩
          exact known
      rw [← closed, Chosen]
      simp only [ofSuperblockStarts, colsClosed, rowsClosed, bind, Except.bind]
      by_cases many : SuperblockGrid.maxTileColumns < cols.length ∨
          SuperblockGrid.maxTileRows < rows.length
      · simp only [if_pos many, throw, throwThe, MonadExceptOf.throw, reduceCtorEq, false_iff]
        omega
      have few : cols.length ≤ SuperblockGrid.maxTileColumns ∧
        rows.length ≤ SuperblockGrid.maxTileRows := by omega
      simp only [if_neg many, few, and_self, true_and]
      cases uniformLog2s? grid colStarts rowStarts with
      | some logs => simp only [pure, Except.pure, Except.ok.injEq, eq_comm]
      | none =>
        by_cases wide : grid.maxTileWidthSb < largest (tileSizes colStarts)
        · simp only [if_pos wide, Nat.not_le.2 wide, throw, throwThe, MonadExceptOf.throw,
            reduceCtorEq, false_and]
        by_cases tall : grid.maxTileHeightSb (largest (tileSizes colStarts)) <
            largest (tileSizes rowStarts)
        · simp only [if_neg wide, if_pos tall, Nat.not_le.2 tall, throw, throwThe,
            MonadExceptOf.throw, reduceCtorEq, false_and, and_false]
        · simp only [if_neg wide, if_neg tall, Nat.not_lt.1 wide, Nat.not_lt.1 tall, pure,
            Except.pure, Except.ok.injEq, true_and, eq_comm]

theorem length_sub_one (starts : List Nat) (count : Nat) :
    (starts ++ [count]).length - 1 = starts.length := by
  rw [List.length_append, List.length_singleton, Nat.add_sub_cancel]

/-- A layout that is found can be expressed and has the starts. It is uniform exactly if the search
    finds logarithms. -/
theorem ofSuperblockStarts_sound {cols rows : List Nat} {layout : TileLayout}
    (success : ofSuperblockStarts grid cols rows = .ok layout) :
    layout.grid = grid ∧ layout.Expressible ∧ layout.StartsAt cols rows ∧
      (layout.uniform = true ↔ ∃ colsLog2 rowsLog2,
        uniformLog2s? grid (cols ++ [grid.sbCols]) (rows ++ [grid.sbRows]) =
          some (colsLog2, rowsLog2)) := by
  obtain ⟨colStarts, rowStarts, colsClosed, rowsClosed, few, chosen⟩ :=
    ofSuperblockStarts_eq_ok.1 success
  obtain ⟨rfl, colHead, colCut, someCols, sbCols⟩ := cut_of_closeStarts colsClosed
  obtain ⟨rfl, rowHead, rowCut, someRows, sbRows⟩ := cut_of_closeStarts rowsClosed
  have columns : 1 ≤ (cols ++ [grid.sbCols]).length - 1 ∧
      (cols ++ [grid.sbCols]).length - 1 ≤ 64 := by
    rw [length_sub_one]
    exact ⟨someCols, few.1⟩
  have rows' : 1 ≤ (rows ++ [grid.sbRows]).length - 1 ∧
      (rows ++ [grid.sbRows]).length - 1 ≤ 64 := by
    rw [length_sub_one]
    exact ⟨someRows, few.2⟩
  rw [Chosen] at chosen
  cases search : uniformLog2s? grid (cols ++ [grid.sbCols]) (rows ++ [grid.sbRows]) with
  | some logs =>
    rw [search] at chosen
    obtain ⟨legal, sameCols, sameRows⟩ :=
      (uniformLog2s?_eq_some sbCols sbRows).1 search
    subst chosen
    refine ⟨rfl, ofCuts_expressible legal ?_ ?_, ⟨sameCols, sameRows⟩, fun _ => ⟨_, _, rfl⟩,
      fun _ => rfl⟩
    · rwa [← sameCols] at columns
    · rwa [← sameRows] at rows'
  | none =>
    rw [search] at chosen
    obtain ⟨narrow, low, rfl⟩ := chosen
    refine ⟨rfl, ofCuts_expressible ?_ columns rows', ⟨rfl, rfl⟩, ?_⟩
    · refine ⟨⟨colHead, colCut.mono narrow, ?_⟩, ⟨rowHead, rowCut.mono low, ?_⟩, rfl⟩
      · exact Nat.le_add_of_sub_le columns.2
      · exact Nat.le_add_of_sub_le rows'.2
    · constructor
      · intro impossible
        cases impossible
      · rintro ⟨_, _, impossible⟩
        cases impossible

/-- Starts of a layout that can be expressed are closed. -/
theorem closed_of_expressible (inRange : grid.InRange) {cols rows : List Nat} {layout : TileLayout}
    (same : layout.grid = grid) (expressible : layout.Expressible)
    (startsAt : layout.StartsAt cols rows) :
    closeStarts .column cols grid.sbCols = .ok (cols ++ [grid.sbCols]) ∧
      closeStarts .row rows grid.sbRows = .ok (rows ++ [grid.sbRows]) := by
  obtain ⟨colStarts, rowStarts⟩ := startsAt
  have legal := expressible.cuts
  subst same
  split at legal
  next uniform =>
    obtain ⟨colHead, colCut⟩ := uniformStarts_cut inRange.sbCols.1 layout.colsLog2
    obtain ⟨rowHead, rowCut⟩ := uniformStarts_cut inRange.sbRows.1 layout.rowsLog2
    have cols_eq : layout.colStarts = uniformStarts layout.grid.sbCols layout.colsLog2 :=
      congrArg Cuts.colStarts legal.starts
    have rows_eq : layout.rowStarts = uniformStarts layout.grid.sbRows layout.rowsLog2 :=
      congrArg Cuts.rowStarts legal.starts
    rw [← cols_eq, colStarts] at colHead colCut
    rw [← rows_eq, rowStarts] at rowHead rowCut
    exact ⟨closeStarts_of_cut inRange.sbCols.1 colHead colCut,
      closeStarts_of_cut inRange.sbRows.1 rowHead rowCut⟩
  next explicit =>
    obtain ⟨⟨colHead, colCut, -⟩, ⟨rowHead, rowCut, -⟩, -⟩ := legal
    simp only [TileLayout.cuts] at colHead colCut rowHead rowCut
    rw [colStarts] at colHead colCut
    rw [rowStarts] at rowHead rowCut
    exact ⟨closeStarts_of_cut inRange.sbCols.1 colHead colCut,
      closeStarts_of_cut inRange.sbRows.1 rowHead rowCut⟩

/-- Where no logarithms are found, a layout with the starts codes their sizes. -/
theorem explicit_of_not_found (inRange : grid.InRange) {cols rows : List Nat} {layout : TileLayout}
    (same : layout.grid = grid) (expressible : layout.Expressible)
    (startsAt : layout.StartsAt cols rows)
    (search : uniformLog2s? grid (cols ++ [grid.sbCols]) (rows ++ [grid.sbRows]) = none) :
    layout.uniform = false := by
  obtain ⟨colStarts, rowStarts⟩ := startsAt
  subst same
  cases uniform : layout.uniform with
  | false => rfl
  | true =>
    have legal := expressible.cuts
    rw [if_pos uniform] at legal
    have found : uniformLog2s? layout.grid (cols ++ [layout.grid.sbCols])
        (rows ++ [layout.grid.sbRows]) = some (layout.colsLog2, layout.rowsLog2) := by
      rw [uniformLog2s?_eq_some inRange.sbCols.1 inRange.sbRows.1, ← colStarts, ← rowStarts]
      exact ⟨⟨legal.cols, legal.rows, rfl⟩, (congrArg Cuts.colStarts legal.starts).symm,
        (congrArg Cuts.rowStarts legal.starts).symm⟩
    rw [search] at found
    cases found

/-- A layout is found for the starts of any layout that can be expressed. -/
theorem ofSuperblockStarts_complete (inRange : grid.InRange) {cols rows : List Nat}
    {layout : TileLayout} (same : layout.grid = grid) (expressible : layout.Expressible)
    (startsAt : layout.StartsAt cols rows) :
    ∃ found, ofSuperblockStarts grid cols rows = .ok found := by
  obtain ⟨colsClosed, rowsClosed⟩ := closed_of_expressible inRange same expressible startsAt
  have few : cols.length ≤ SuperblockGrid.maxTileColumns ∧
      rows.length ≤ SuperblockGrid.maxTileRows := by
    have tiles := expressible.tiles
    rwa [columns, TileLayout.rows, startsAt.1, startsAt.2, length_sub_one, length_sub_one] at tiles
  suffices chosen : ∃ found, Chosen grid (cols ++ [grid.sbCols]) (rows ++ [grid.sbRows]) found by
    obtain ⟨found, chosen⟩ := chosen
    exact ⟨found, ofSuperblockStarts_eq_ok.2 ⟨_, _, colsClosed, rowsClosed, few, chosen⟩⟩
  cases search : uniformLog2s? grid (cols ++ [grid.sbCols]) (rows ++ [grid.sbRows]) with
  | some logs => exact ⟨_, by rw [Chosen, search]⟩
  | none =>
    have explicit := explicit_of_not_found inRange same expressible startsAt search
    have legal := expressible.cuts
    rw [explicit] at legal
    obtain ⟨⟨-, colCut, -⟩, ⟨-, rowCut, -⟩, -⟩ := legal
    subst same
    simp only [TileLayout.cuts, Cuts.heightLimit] at colCut rowCut
    rw [startsAt.1] at colCut rowCut
    rw [startsAt.2] at rowCut
    refine ⟨ofCuts layout.grid false
      (.explicit (cols ++ [layout.grid.sbCols]) (rows ++ [layout.grid.sbRows])), ?_⟩
    rw [Chosen, search]
    exact ⟨(cut_append_iff.1 colCut).2.2, (cut_append_iff.1 rowCut).2.2, rfl⟩

/-- A layout is found for starts exactly if some bytes code a layout with these starts. What is
    found has them, is uniform exactly if some uniform layout has them, and is read back from just
    the bits that are written for it. -/
theorem ofSuperblockStarts_iff_coded (inRange : grid.InRange) (cols rows : List Nat) :
    ((∃ layout, ofSuperblockStarts grid cols rows = .ok layout) ↔
      ∃ layout, Coded grid layout ∧ layout.StartsAt cols rows) ∧
    ∀ layout, ofSuperblockStarts grid cols rows = .ok layout →
      layout.StartsAt cols rows ∧
      (layout.uniform = true ↔
        ∃ other, Coded grid other ∧ other.StartsAt cols rows ∧ other.uniform = true) ∧
      ∃ bits, Write.Appends layout.write bits () ∧ ∀ pos, (read grid).Yields pos bits layout := by
  have narrow := inRange.narrow
  refine ⟨⟨?_, ?_⟩, ?_⟩
  · rintro ⟨layout, success⟩
    obtain ⟨same, expressible, startsAt, -⟩ := ofSuperblockStarts_sound success
    exact ⟨layout, (coded_iff narrow layout).2 ⟨same, expressible⟩, startsAt⟩
  · rintro ⟨layout, coded, startsAt⟩
    obtain ⟨same, expressible⟩ := (coded_iff narrow layout).1 coded
    exact ofSuperblockStarts_complete inRange same expressible startsAt
  · intro layout success
    obtain ⟨rfl, expressible, startsAt, uniform⟩ := ofSuperblockStarts_sound success
    refine ⟨startsAt, ?_, layout.code, write_appends narrow expressible,
      code_yields narrow expressible⟩
    constructor
    · intro isUniform
      exact ⟨layout, (coded_iff narrow layout).2 ⟨rfl, expressible⟩, startsAt, isUniform⟩
    · rintro ⟨other, coded, otherStarts, otherUniform⟩
      obtain ⟨same, expressible'⟩ := (coded_iff narrow other).1 coded
      refine uniform.2 ?_
      cases search : uniformLog2s? layout.grid (cols ++ [layout.grid.sbCols])
          (rows ++ [layout.grid.sbRows]) with
      | some logs => exact ⟨_, _, rfl⟩
      | none =>
        rw [explicit_of_not_found inRange same expressible' otherStarts search] at otherUniform
        cases otherUniform

/-- Three tile columns of ten superblocks, which no logarithm yields. -/
theorem ofSuperblockStarts_three_columns :
    (⟨1920, 1080, false⟩ : SuperblockGrid).InRange ∧
      ∃ layout, ofSuperblockStarts ⟨1920, 1080, false⟩ [0, 10, 20] [0] = .ok layout ∧
        layout.uniform = false ∧ layout.StartsAt [0, 10, 20] [0] ∧
        ∃ bits, Write.Appends layout.write bits () ∧
          ∀ pos, (read ⟨1920, 1080, false⟩).Yields pos bits layout := by
  have inRange : (⟨1920, 1080, false⟩ : SuperblockGrid).InRange := ⟨by decide, by decide⟩
  have success : ofSuperblockStarts ⟨1920, 1080, false⟩ [0, 10, 20] [0] = .ok {
      grid := ⟨1920, 1080, false⟩, uniform := false, colsLog2 := 2, rowsLog2 := 0
      colStarts := [0, 10, 20, 30], rowStarts := [0, 17], contextTile := 0
      tileSizeBytes := 4 } := by decide +kernel
  obtain ⟨startsAt, -, coded⟩ := (ofSuperblockStarts_iff_coded inRange [0, 10, 20] [0]).2 _ success
  exact ⟨inRange, _, success, rfl, startsAt, coded⟩

end Av1Tiling.TileLayout
