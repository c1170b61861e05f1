import Av1Tiling.Proofs.Tile.Pixels

/-!
# Tiles that share out their frame

On each axis a tile ends where the next one starts, and the last one with the frame. So tiles that
start at the first sample and at growing columns and rows behind it share the frame out among them:
each sample lies in one tile and in no other (`Tiling`). A layout that is found for the samples at
which tiles start is of this kind.
-/

namespace Av1Tiling

/-- The sample of column `x` and row `y` lies in the tile. -/
def TileRect.Contains (rect : TileRect) (x y : Nat) : Prop :=
  (rect.x ≤ x ∧ x < rect.x + rect.width) ∧ rect.y ≤ y ∧ y < rect.y + rect.height

/-- Tiles in `columns` columns and `rows` rows, counted row by row, that share out a frame. -/
structure Tiling (width height columns rows : Nat) (rect? : Nat → Option TileRect) : Prop where
  total : ∀ tile, (∃ rect, rect? tile = some rect) ↔ tile < columns * rows
  raster : ∀ tile rect, rect? tile = some rect →
    rect.column = tile % columns ∧ rect.row = tile / columns
  /-- No tile is empty, and none reaches out of the frame. -/
  inside : ∀ tile rect, rect? tile = some rect →
    (0 < rect.width ∧ rect.x + rect.width ≤ width) ∧ 0 < rect.height ∧ rect.y + rect.height ≤ height
  /-- A tile ends where those of the columns behind it start, or earlier. -/
  across : ∀ a b one other, rect? a = some one → rect? b = some other →
    one.column < other.column → one.x + one.width ≤ other.x
  /-- A tile ends where those of the rows below it start, or earlier. -/
  down : ∀ a b one other, rect? a = some one → rect? b = some other →
    one.row < other.row → one.y + one.height ≤ other.y
  covers : ∀ x y, x < width → y < height → ∃ tile rect, rect? tile = some rect ∧ rect.Contains x y
  disjoint : ∀ a b one other, rect? a = some one → rect? b = some other →
    ∀ x y, one.Contains x y → other.Contains x y → a = b

/-! ## One axis -/

/-- Places at which the tiles of an axis of `length` samples may start. -/
structure Edges (length : Nat) (starts : List Nat) : Prop where
  head : starts.head? = some 0
  sorted : starts.Pairwise (· < ·)
  inside : ∀ start ∈ starts, start < length

/-- Where the tile with the given place on an axis ends. -/
def stopAt (length : Nat) (starts : List Nat) (index : Nat) : Nat :=
  min (starts[index + 1]?.getD length) length

theorem stopAt_le (length : Nat) (starts : List Nat) (index : Nat) :
    stopAt length starts index ≤ length :=
  Nat.min_le_right ..

/-- Each sample behind the first start lies in front of the end of some tile that starts there or
    earlier. -/
theorem exists_stopAt {length x first : Nat} {rest : List Nat} (least : first ≤ x)
    (inside : x < length) :
    ∃ index start, (first :: rest)[index]? = some start ∧ start ≤ x ∧
      x < stopAt length (first :: rest) index := by
  induction rest generalizing first with
  | nil => exact ⟨0, first, rfl, least, Nat.lt_min.2 ⟨inside, inside⟩⟩
  | cons second rest ih =>
    by_cases before : x < second
    · exact ⟨0, first, rfl, least, Nat.lt_min.2 ⟨before, inside⟩⟩
    · obtain ⟨index, start, found, starts, stops⟩ := ih (Nat.le_of_not_lt before)
      exact ⟨index + 1, start, found, starts, stops⟩

namespace Edges

variable {length : Nat} {starts : List Nat}

theorem lt_of_lt (edges : Edges length starts) {i j one other : Nat} (before : i < j)
    (first : starts[i]? = some one) (second : starts[j]? = some other) : one < other := by
  obtain ⟨_, rfl⟩ := List.getElem?_eq_some_iff.1 first
  obtain ⟨_, rfl⟩ := List.getElem?_eq_some_iff.1 second
  exact List.pairwise_iff_getElem.1 edges.sorted i j _ _ before

theorem lt_stopAt (edges : Edges length starts) {index start : Nat}
    (found : starts[index]? = some start) : start < stopAt length starts index := by
  have inside := edges.inside start (List.mem_of_getElem? found)
  refine Nat.lt_min.2 ⟨?_, inside⟩
  cases next : starts[index + 1]? with
  | none => exact inside
  | some stop => exact edges.lt_of_lt (Nat.lt_succ_self index) found next

theorem stopAt_le_start (edges : Edges length starts) {i j start : Nat} (before : i < j)
    (found : starts[j]? = some start) : stopAt length starts i ≤ start := by
  refine Nat.le_trans (Nat.min_le_left ..) ?_
  have inside : j < starts.length := (List.getElem?_eq_some_iff.1 found).1
  have short : i + 1 < starts.length := Nat.lt_of_le_of_lt before inside
  have next := List.getElem?_eq_getElem short
  rw [next, Option.getD_some]
  rcases Nat.eq_or_lt_of_le (Nat.succ_le_of_lt before) with same | later
  · rw [← same, next] at found
    exact Nat.le_of_eq (Option.some.inj found)
  · exact Nat.le_of_lt (edges.lt_of_lt later next found)

theorem exists_interval (edges : Edges length starts) {x : Nat} (inside : x < length) :
    ∃ index start, starts[index]? = some start ∧ start ≤ x ∧ x < stopAt length starts index := by
  have head := edges.head
  cases starts with
  | nil => cases head
  | cons first rest =>
    cases head
    exact exists_stopAt (Nat.zero_le x) inside

end Edges

/-! ## Both axes -/

namespace Placement

variable {placement : Placement} {tile : Nat} {rect : TileRect}

theorem rect?_eq_some_iff : placement.rect? tile = some rect ↔ ∃ x y,
    placement.xs[tile % placement.xs.length]? = some x ∧
      placement.ys[tile / placement.xs.length]? = some y ∧
      rect = {
        column := tile % placement.xs.length, row := tile / placement.xs.length, x, y
        width := stopAt placement.width placement.xs (tile % placement.xs.length) - x
        height := stopAt placement.height placement.ys (tile / placement.xs.length) - y } := by
  simp only [rect?, Option.bind_eq_bind, Option.bind_eq_some_iff, Option.some.injEq]
  constructor
  · rintro ⟨x, atX, y, atY, rfl⟩
    exact ⟨x, y, atX, atY, rfl⟩
  · rintro ⟨x, y, atX, atY, rfl⟩
    exact ⟨x, atX, y, atY, rfl⟩

theorem exists_rect?_iff :
    (∃ rect, placement.rect? tile = some rect) ↔
      tile < placement.xs.length * placement.ys.length := by
  constructor
  · rintro ⟨rect, found⟩
    obtain ⟨x, y, atX, atY, -⟩ := rect?_eq_some_iff.1 found
    have column := (List.getElem?_eq_some_iff.1 atX).1
    have row := (List.getElem?_eq_some_iff.1 atY).1
    rwa [Nat.div_lt_iff_lt_mul (Nat.zero_lt_of_lt column), Nat.mul_comm] at row
  · intro few
    have positive : 0 < placement.xs.length := Nat.pos_of_mul_pos_right (Nat.zero_lt_of_lt few)
    have column : tile % placement.xs.length < placement.xs.length := Nat.mod_lt _ positive
    have row : tile / placement.xs.length < placement.ys.length := Nat.div_lt_of_lt_mul few
    exact ⟨_, rect?_eq_some_iff.2
      ⟨_, _, List.getElem?_eq_getElem column, List.getElem?_eq_getElem row, rfl⟩⟩

/-- A tile starts at the column and the row that its place says. -/
theorem rect?_starts (inside : tile < placement.xs.length * placement.ys.length) :
    (placement.rect? tile).map TileRect.x = placement.xs[tile % placement.xs.length]? ∧
      (placement.rect? tile).map TileRect.y = placement.ys[tile / placement.xs.length]? := by
  obtain ⟨rect, found⟩ := exists_rect?_iff.2 inside
  obtain ⟨x, y, atX, atY, rfl⟩ := rect?_eq_some_iff.1 found
  rw [found, atX, atY]
  exact ⟨rfl, rfl⟩

/-- Tiles may start at these columns and rows of the frame. -/
structure Legal (placement : Placement) : Prop where
  across : Edges placement.width placement.xs
  down : Edges placement.height placement.ys

/-- On both axes the tile starts at an edge and ends where the next one starts. -/
structure Spans (placement : Placement) (rect : TileRect) : Prop where
  x : placement.xs[rect.column]? = some rect.x
  right : rect.x + rect.width = stopAt placement.width placement.xs rect.column
  wide : 0 < rect.width
  y : placement.ys[rect.row]? = some rect.y
  bottom : rect.y + rect.height = stopAt placement.height placement.ys rect.row
  high : 0 < rect.height

theorem rect?_raster (found : placement.rect? tile = some rect) :
    rect.column = tile % placement.xs.length ∧ rect.row = tile / placement.xs.length := by
  obtain ⟨x, y, -, -, rfl⟩ := rect?_eq_some_iff.1 found
  exact ⟨rfl, rfl⟩

namespace Legal

variable {one other : TileRect} {x y : Nat}

theorem spans (legal : placement.Legal) (found : placement.rect? tile = some rect) :
    placement.Spans rect := by
  obtain ⟨x, y, atX, atY, rfl⟩ := rect?_eq_some_iff.1 found
  have wide := legal.across.lt_stopAt atX
  have high := legal.down.lt_stopAt atY
  exact {
    x := atX
    right := Nat.add_sub_of_le (Nat.le_of_lt wide)
    wide := Nat.sub_pos_of_lt wide
    y := atY
    bottom := Nat.add_sub_of_le (Nat.le_of_lt high)
    high := Nat.sub_pos_of_lt high }

theorem right_le (legal : placement.Legal) (first : placement.Spans one)
    (second : placement.Spans other) (before : one.column < other.column) :
    one.x + one.width ≤ other.x := by
  rw [first.right]
  exact legal.across.stopAt_le_start before second.x

theorem bottom_le (legal : placement.Legal) (first : placement.Spans one)
    (second : placement.Spans other) (before : one.row < other.row) :
    one.y + one.height ≤ other.y := by
  rw [first.bottom]
  exact legal.down.stopAt_le_start before second.y

/-- Each sample of the frame lies in the tile of its column and its row. -/
theorem exists_contains (legal : placement.Legal) (wide : x < placement.width)
    (high : y < placement.height) :
    ∃ tile rect, placement.rect? tile = some rect ∧ rect.Contains x y := by
  obtain ⟨column, left, atX, afterLeft, beforeRight⟩ := legal.across.exists_interval wide
  obtain ⟨row, top, atY, afterTop, beforeBottom⟩ := legal.down.exists_interval high
  have less : column < placement.xs.length := (List.getElem?_eq_some_iff.1 atX).1
  have ofColumn : (placement.xs.length * row + column) % placement.xs.length = column := by
    rw [Nat.mul_add_mod, Nat.mod_eq_of_lt less]
  have ofRow : (placement.xs.length * row + column) / placement.xs.length = row := by
    rw [Nat.mul_add_div (Nat.zero_lt_of_lt less), Nat.div_eq_of_lt less, Nat.add_zero]
  obtain ⟨rect, found⟩ : ∃ rect,
      placement.rect? (placement.xs.length * row + column) = some rect :=
    ⟨_, rect?_eq_some_iff.2 ⟨left, top, by rw [ofColumn, atX], by rw [ofRow, atY], rfl⟩⟩
  obtain ⟨sameColumn, sameRow⟩ := rect?_raster found
  have spans := legal.spans found
  have startsLeft := spans.x
  have startsTop := spans.y
  have right := spans.right
  have bottom := spans.bottom
  rw [sameColumn, ofColumn] at startsLeft right
  rw [sameRow, ofRow] at startsTop bottom
  obtain rfl := Option.some.inj (atX.symm.trans startsLeft)
  obtain rfl := Option.some.inj (atY.symm.trans startsTop)
  exact ⟨_, rect, found, ⟨afterLeft, right ▸ beforeRight⟩, afterTop, bottom ▸ beforeBottom⟩

/-- Tiles with a sample in common have the same place. -/
theorem same_place (legal : placement.Legal) (first : placement.Spans one)
    (second : placement.Spans other) (inOne : one.Contains x y) (inOther : other.Contains x y) :
    one.column = other.column ∧ one.row = other.row := by
  obtain ⟨⟨oneLeft, oneRight⟩, oneTop, oneBottom⟩ := inOne
  obtain ⟨⟨otherLeft, otherRight⟩, otherTop, otherBottom⟩ := inOther
  constructor
  · rcases Nat.lt_trichotomy one.column other.column with less | same | more
    · have apart := legal.right_le first second less
      omega
    · exact same
    · have apart := legal.right_le second first more
      omega
  · rcases Nat.lt_trichotomy one.row other.row with less | same | more
    · have apart := legal.bottom_le first second less
      omega
    · exact same
    · have apart := legal.bottom_le second first more
      omega

/-- Tiles that start at legal columns and rows share out the frame. -/
theorem tiling (legal : placement.Legal) :
    Tiling placement.width placement.height placement.xs.length placement.ys.length
      placement.rect? where
  total _ := exists_rect?_iff
  raster _ _ := rect?_raster
  inside tile rect found := by
    have spans := legal.spans found
    rw [spans.right, spans.bottom]
    exact ⟨⟨spans.wide, stopAt_le ..⟩, spans.high, stopAt_le ..⟩
  across _ _ _ _ first second before := legal.right_le (legal.spans first) (legal.spans second) before
  down _ _ _ _ first second before := legal.bottom_le (legal.spans first) (legal.spans second) before
  covers _ _ wide high := legal.exists_contains wide high
  disjoint a b one other first second x y inOne inOther := by
    obtain ⟨column, row⟩ :=
      legal.same_place (legal.spans first) (legal.spans second) inOne inOther
    rw [(rect?_raster first).1, (rect?_raster second).1] at column
    rw [(rect?_raster first).2, (rect?_raster second).2] at row
    rw [← Nat.div_add_mod a placement.xs.length, ← Nat.div_add_mod b placement.xs.length,
      column, row]

end Legal

end Placement

/-! ## Layouts -/

/-- A superblock of the frame starts in front of the end of the frame. -/
theorem SuperblockGrid.mul_superblockSize_lt (grid : SuperblockGrid) {length start : Nat}
    (inside : start < grid.covering (modeInfoUnits length)) :
    start * grid.superblockSize < length := by
  cases large : grid.large <;>
    simp only [covering, modeInfoUnits, superblockSize, sizeLog2, superblockShift, large,
      Bool.false_eq_true, if_true, if_false] at inside ⊢ <;> omega

namespace TileLayout

theorem pairwise_of_increasing {starts : List Nat} (sorted : increasing starts = true) :
    starts.Pairwise (· < ·) := by
  induction starts with
  | nil => exact .nil
  | cons first rest ih =>
    cases rest with
    | nil => exact List.pairwise_singleton _ first
    | cons second rest =>
      rw [increasing, Bool.and_eq_true, decide_eq_true_eq] at sorted
      have behind := ih sorted.2
      refine List.pairwise_cons.2 ⟨fun start member => ?_, behind⟩
      rcases List.mem_cons.1 member with rfl | later
      · exact sorted.1
      · exact Nat.lt_trans sorted.1 (List.rel_of_pairwise_cons behind later)

/-- Starts on the superblocks of an axis are edges of its samples. -/
theorem edges_of_closed {grid : SuperblockGrid} {axis : Axis} {starts closed : List Nat}
    {length : Nat}
    (success : closeStarts axis starts (grid.covering (modeInfoUnits length)) = .ok closed) :
    Edges length (starts.map (· * grid.superblockSize)) := by
  obtain ⟨-, head, sorted, inside⟩ := closeStarts_eq_ok.1 success
  have positive := (superblockSize_bounds grid).1
  refine ⟨?_, ?_, ?_⟩
  · rw [List.head?_map, head, Option.map_some, Nat.zero_mul]
  · exact List.pairwise_map.2 ((pairwise_of_increasing sorted).imp fun less =>
      Nat.mul_lt_mul_of_pos_right less positive)
  · intro start member
    obtain ⟨superblock, found, rfl⟩ := List.mem_map.1 member
    exact grid.mul_superblockSize_lt (inside superblock found)

/-- Samples for which a layout is found are legal. -/
theorem ofPixelStarts_legal {grid : SuperblockGrid} {xs ys : List Nat} {layout : TileLayout}
    (success : ofPixelStarts grid xs ys = .ok layout) :
    (⟨grid.frameWidth, grid.frameHeight, xs, ys⟩ : Placement).Legal := by
  obtain ⟨cols, across, success⟩ := Checked.bind_eq_ok.1 success
  obtain ⟨rows, down, success⟩ := Checked.bind_eq_ok.1 success
  obtain ⟨_, _, colsClosed, rowsClosed, -⟩ := ofSuperblockStarts_eq_ok.1 success
  rw [mapM_superblockAt_sound across, mapM_superblockAt_sound down]
  exact ⟨edges_of_closed colsClosed, edges_of_closed rowsClosed⟩

theorem Expressible.rect?_eq_placement {layout : TileLayout} (expressible : layout.Expressible) :
    layout.rect? = layout.placement.rect? := by
  funext tile
  by_cases inside : tile < layout.tileCount
  · exact expressible.rect?_eq inside
  · have none : layout.placement.rect? tile = none := by
      rw [Option.eq_none_iff_forall_ne_some]
      intro rect found
      exact inside (expressible.placement_count ▸ Placement.exists_rect?_iff.1 ⟨rect, found⟩)
    rw [none, rect?, if_neg inside]

end TileLayout

end Av1Tiling
