import Av1Tiling.Proofs.Frame.Grid
import Av1Tiling.Proofs.Frame.Rewriting
import Av1Tiling.Proofs.Tile.Safety
import Av1Tiling.Proofs.Tile.Whole

/-!
# The payloads of tile groups

All tiles of a frame can be written as one group exactly if the sizes in front of them can be said,
and what is written is parsed as just these tiles (`writeAll_parses`). Of any payload that is parsed
each byte belongs to the header of its group, to the size of a tile or to a tile, and a group that
does not say which tiles it holds is written as it was (`parse_accounts`).
-/

namespace Av1Tiling

/-- A layout that is offered for a frame that is not empty. -/
structure TileLayout.OfFrame (layout : TileLayout) (width height : Nat) : Prop where
  wide : 1 ≤ width
  high : 1 ≤ height
  offered : ∃ large grid, SuperblockGrid.checked width height large = .ok grid ∧
    FrameHeader.Offered grid layout

namespace TileLayout.OfFrame

variable {layout : TileLayout} {width height : Nat}

theorem expressible (cut : layout.OfFrame width height) : layout.Expressible := by
  obtain ⟨large, grid, checked, offered⟩ := cut.offered
  exact (offered.expressible (SuperblockGrid.checked_sound checked)).2

/-- A frame that is not empty has a tile. -/
theorem tileCount_pos (cut : layout.OfFrame width height) : 1 ≤ layout.tileCount := by
  obtain ⟨large, grid, checked, offered⟩ := cut.offered
  obtain ⟨rfl, expressible⟩ := offered.expressible (SuperblockGrid.checked_sound checked)
  have same := SuperblockGrid.checked_eq checked
  have cols : 1 ≤ layout.grid.sbCols := by
    rw [same]
    exact SuperblockGrid.covering_pos _ cut.wide
  have rows : 1 ≤ layout.grid.sbRows := by
    rw [same]
    exact SuperblockGrid.covering_pos _ cut.high
  obtain ⟨columns, rows⟩ := expressible.tiles_pos cols rows
  exact Nat.mul_pos columns rows

end TileLayout.OfFrame

/-- Two columns of one superblock, with tile sizes of one byte. -/
def TileLayout.twoColumns : TileLayout where
  grid := ⟨128, 64, false⟩
  uniform := true
  colsLog2 := 1
  rowsLog2 := 0
  colStarts := [0, 1, 2]
  rowStarts := [0, 1]
  contextTile := 0
  tileSizeBytes := 1

theorem TileLayout.twoColumns_ofFrame : twoColumns.OfFrame 128 64 := by
  have checked : SuperblockGrid.checked 128 64 false = .ok ⟨128, 64, false⟩ := by decide +kernel
  have run : Step.Succeeds (fun layout _ => layout = twoColumns)
      (read ⟨128, 64, false⟩ ⟨0, [true, true, false, false, false]⟩) := by decide +kernel
  obtain ⟨_, behind, run, rfl⟩ := run.eq_ok
  exact ⟨by decide, by decide, false, _, checked, .inl ⟨_, behind, run⟩⟩

namespace TileGroup

variable {layout : TileLayout} {width height : Nat}

/-- Onto whole bytes, and where there is room for them, some bytes are written as all tiles of a
    frame exactly if they are as many as its tiles and the size of each but the last can be said.
    The bytes that are written are parsed as one group, which ends the frame and from which each
    tile is cut out as it was given. -/
theorem writeAll_parses (cut : layout.OfFrame width height) (tiles : List Bytes)
    {writer : BitWriter} (aligned : writer.pending = [])
    (room : writer.buffer.size + (coded layout tiles).length ≤ writer.buffer.capacity) :
    ((∃ behind, writeAll layout tiles writer = .ok () behind) ↔
      tiles.length = layout.tileCount ∧
        ∀ tile ∈ tiles.dropLast, tile ≠ [] ∧ tile.length ≤ 256 ^ layout.tileSizeBytes) ∧
    ∀ behind, writeAll layout tiles writer = .ok () behind →
      ∃ output group, writer.Takes output behind ∧ parse output layout = .ok group ∧
        (group.first = 0 ∧ group.last = layout.tileCount - 1 ∧ group.endsFrame layout = true) ∧
        group.indices = List.range layout.tileCount ∧
        (∀ span ∈ group.tiles, span.offset + span.size ≤ output.length) ∧
        group.tileBytes output = tiles := by
  have width := cut.expressible.tileSizeBytes
  have narrow : layout.tileSizeBytes ≤ 8 := by omega
  have sized_iff : Sized layout.tileSizeBytes tiles ↔
      ∀ tile ∈ tiles.dropLast, tile ≠ [] ∧ tile.length ≤ 256 ^ layout.tileSizeBytes := by
    simp only [Sized, Nat.one_le_iff_ne_zero, List.length_eq_zero_iff, ne_eq]
  rw [← sized_iff]
  refine ⟨⟨?_, ?_⟩, fun behind run => ?_⟩
  · rintro ⟨behind, run⟩
    exact (writeAll_sound narrow aligned room run).1
  · rintro ⟨all, sized⟩
    obtain ⟨behind, run, -⟩ := writeAll_puts narrow all sized writer aligned room
    exact ⟨behind, run⟩
  · obtain ⟨⟨all, sized⟩, takes⟩ := writeAll_sound narrow aligned room run
    have positive := cut.tileCount_pos
    have some : tiles ≠ [] := List.ne_nil_of_length_pos (by omega)
    obtain ⟨group, success, indices, bytes⟩ := parse_coded width all some sized
    obtain ⟨first, last⟩ := (parse_ranged success).whole indices
    exact ⟨_, group, takes, success, ⟨first, by omega, endsFrame_iff.2 last⟩, indices,
      (parse_sound success).located.inside, bytes⟩

/-- A tile of two bytes behind its size, and a last one that is empty. -/
theorem writeAll_parses_two_columns : TileLayout.twoColumns.OfFrame 128 64 ∧
    (BitWriter.empty 4).pending = [] ∧
    ∃ behind output group, writeAll .twoColumns [[0xAA, 0xAB], []] (.empty 4) = .ok () behind ∧
      (BitWriter.empty 4).Takes output behind ∧ parse output .twoColumns = .ok group ∧
      group.last = 1 ∧ group.tileBytes output = [[0xAA, 0xAB], []] := by
  have aligned : (BitWriter.empty 4).pending = [] := rfl
  obtain ⟨iff, known⟩ := writeAll_parses TileLayout.twoColumns_ofFrame [[0xAA, 0xAB], []] aligned
    (by decide)
  obtain ⟨behind, run⟩ := iff.2 ⟨rfl, by decide⟩
  obtain ⟨output, group, takes, parsed, ⟨-, last, -⟩, -, -, bytes⟩ := known behind run
  exact ⟨TileLayout.twoColumns_ofFrame, aligned, behind, output, group, run, takes, parsed, last,
    bytes⟩

/-- The tiles of a group that was parsed are those from its first to its last, which the frame has.
    They cover the payload behind the header, together with their sizes. If the group does not say
    which tiles it holds, its tiles are written as this payload. -/
theorem parse_accounts (cut : layout.OfFrame width height) {payload : Bytes} {group : TileGroup}
    (success : parse payload layout = .ok group) :
    (group.first ≤ group.last ∧ group.last < layout.tileCount) ∧
      group.indices = List.range' group.first (group.last - group.first + 1) ∧
      Covers layout.tileSizeBytes payload group.headerSize group.tiles ∧
      (group.rangePresent = false →
        Write.Puts 0 (writeAll layout (group.tileBytes payload)) payload ()) := by
  have parsed := parse_sound success
  have ranged := parse_ranged success
  have last := parse_last success
  have positive := cut.tileCount_pos
  refine ⟨⟨parsed.range, by omega⟩, ranged.indices, parsed.located.covers, fun absent => ?_⟩
  have all : (group.tileBytes payload).length = layout.tileCount := by
    have length := congrArg List.length ranged.indices
    obtain ⟨first, last⟩ := parsed.all absent
    rw [indices, List.length_map, List.length_range'] at length
    rw [tileBytes, List.length_map]
    omega
  have puts := writeAll_puts (by have := cut.expressible.tileSizeBytes; omega) all
    parsed.located.sized
  rwa [parsed.coded absent] at puts

/-- A tile of two bytes behind its size, and one of a single byte. -/
theorem parse_accounts_two_columns : TileLayout.twoColumns.OfFrame 128 64 ∧
    ∃ group, parse [0x00, 0x01, 0xAA, 0xAB, 0xBB] .twoColumns = .ok group ∧
      group.tiles = [⟨0, 2, 2⟩, ⟨1, 4, 1⟩] ∧
      Covers 1 [0x00, 0x01, 0xAA, 0xAB, 0xBB] 1 group.tiles ∧
      Write.Puts 0 (writeAll .twoColumns [[0xAA, 0xAB], [0xBB]]) [0x00, 0x01, 0xAA, 0xAB, 0xBB]
        () := by
  have parsed : parse [0x00, 0x01, 0xAA, 0xAB, 0xBB] .twoColumns =
      .ok ⟨false, 0, 1, 1, [⟨0, 2, 2⟩, ⟨1, 4, 1⟩]⟩ := by decide +kernel
  obtain ⟨-, -, covers, again⟩ := parse_accounts TileLayout.twoColumns_ofFrame parsed
  exact ⟨TileLayout.twoColumns_ofFrame, _, parsed, rfl, covers, again rfl⟩

end TileGroup

end Av1Tiling
