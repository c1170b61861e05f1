import Av1Tiling.Proofs.Packet.TilePackets

/-!
# One grid for all frames of a unit

A tile info has room for one geometry, while the frames of a unit may be cut in different ways. A
unit with frames of different numbers of tiles is not split. Of the others each frame is placed as
the last one, whether or not that has tile groups; so just the frames that are cut at the same
samples as the last one find their own tiles in the packets (`TileSplitter.Ran.places_frames`).
-/

namespace Av1Tiling

/-- Where all tiles of a frame sit says how the frame is cut. -/
theorem Placement.eq_of_at {first second : Placement} {count : Nat} {geometry : Nat → TileGeometry}
    (positive : 0 < count) (total : count = first.xs.length * first.ys.length)
    (otherTotal : count = second.xs.length * second.ys.length)
    (placed : ∀ tile < count, (geometry tile).At first tile)
    (otherPlaced : ∀ tile < count, (geometry tile).At second tile) : first = second := by
  have here := placed 0 positive
  have there := otherPlaced 0 positive
  have columns : first.xs.length = second.xs.length := here.columns.symm.trans there.columns
  have some : 0 < first.xs.length := Nat.pos_of_mul_pos_right (total ▸ positive)
  have row : first.xs.length ≤ count := by
    rw [total]
    exact Nat.le_mul_of_pos_right _ (Nat.pos_of_mul_pos_left (total ▸ positive))
  have xs : first.xs = second.xs := by
    rw [← TileGrid.map_x_eq row placed, ← TileGrid.map_x_eq (columns ▸ row) otherPlaced, columns]
  have ys : first.ys = second.ys := by
    rw [← TileGrid.map_y_eq some total placed,
      ← TileGrid.map_y_eq (columns ▸ some) otherTotal otherPlaced, columns]
  have width : first.width = second.width := here.width.symm.trans there.width
  have height : first.height = second.height := here.height.symm.trans there.height
  cases first
  cases second
  simp only at width height xs ys
  rw [width, height, xs, ys]

namespace TileSplitter.Split

variable {layout other : TileLayout} {tile : Nat} {geometry : TileGeometry}

theorem placeIn_eq_ok_iff : placeIn layout tile = .ok geometry ↔
    ∃ rect, layout.rect? tile = some rect ∧ geometry = {
      width := layout.grid.frameWidth, height := layout.grid.frameHeight
      columns := layout.columns, rows := layout.rows, x := rect.x, y := rect.y
      tileWidth := rect.width, tileHeight := rect.height } := by
  rw [placeIn]
  cases layout.rect? tile with
  | none => simp
  | some rect => simp [eq_comm]

/-- Layouts that cut a frame at the same samples place each tile alike. -/
theorem placeIn_congr (expressible : layout.Expressible) (otherExpressible : other.Expressible)
    (alike : layout.placement = other.placement) (inside : tile < layout.tileCount) :
    placeIn layout tile = placeIn other tile := by
  have counted : layout.tileCount = other.tileCount := by
    rw [← expressible.placement_count, alike, otherExpressible.placement_count]
  have columns : layout.columns = other.columns := by
    rw [← expressible.placement_columns, alike, otherExpressible.placement_columns]
  have rows : layout.rows = other.rows := by
    rw [← expressible.placement_rows, alike, otherExpressible.placement_rows]
  have width : layout.grid.frameWidth = other.grid.frameWidth := congrArg Placement.width alike
  have height : layout.grid.frameHeight = other.grid.frameHeight := congrArg Placement.height alike
  rw [placeIn, placeIn, expressible.rect?_eq inside, otherExpressible.rect?_eq (counted ▸ inside),
    alike, columns, rows, width, height]

/-- A layout of a frame places all its tiles. -/
theorem placeIn_total (framed : layout.Framed) :
    ∃ geometry : Nat → TileGeometry, ∀ tile < layout.tileCount,
      placeIn layout tile = .ok (geometry tile) := by
  have each : ∀ tile, ∃ geometry, tile < layout.tileCount →
      placeIn layout tile = .ok geometry := by
    intro tile
    by_cases inside : tile < layout.tileCount
    · obtain ⟨geometry, placed, -⟩ :=
        placeIn_eq_ok (framed.inRange (by omega)) framed.expressible inside
      exact ⟨geometry, fun _ => placed⟩
    · exact ⟨.fullFrame 0 0, fun less => absurd less inside⟩
  exact Classical.axiomOfChoice each

/-- Layouts place all their tiles alike just if they cut a frame of the same size at the same
    samples. -/
theorem placeIn_alike_iff (framed : layout.Framed) (otherFramed : other.Framed)
    (tiles : 1 ≤ other.tileCount) :
    (layout.tileCount = other.tileCount ∧
      ∀ tile < other.tileCount, placeIn layout tile = placeIn other tile) ↔
      layout.placement = other.placement := by
  constructor
  · rintro ⟨counted, alike⟩
    obtain ⟨geometry, placed⟩ := placeIn_total otherFramed
    have own : ∀ tile < other.tileCount, (geometry tile).At layout.placement tile :=
      fun tile inside =>
        placeIn_at framed (counted ▸ inside) ((alike tile inside).trans (placed tile inside))
    have total : other.tileCount = layout.placement.xs.length * layout.placement.ys.length := by
      rw [framed.expressible.placement_count, counted]
    exact Placement.eq_of_at tiles total otherFramed.expressible.placement_count.symm own
      fun tile inside => placeIn_at otherFramed inside (placed tile inside)
  · intro alike
    have counted : layout.tileCount = other.tileCount := by
      rw [← framed.expressible.placement_count, alike, otherFramed.expressible.placement_count]
    exact ⟨counted, fun tile inside =>
      placeIn_congr framed.expressible otherFramed.expressible alike (counted ▸ inside)⟩

end TileSplitter.Split

/-- There is a packet for each tile of the frame, which places it as the frame has it: with the size
    of the frame, the columns and rows that it is cut into, and the tile's own samples. -/
def FrameHeader.PlacedBy (frame : FrameHeader) (unit : Bytes) (packets : List Packet) : Prop :=
  ∃ layout, frame.layout = some layout ∧ packets.length = layout.tileCount ∧
    ∀ (index : Nat) (carrier : Packet), packets[index]? = some carrier →
      ∃ info rect, TileInfo.splitPacket carrier.data = .ok (info, unit) ∧
        layout.rect? index = some rect ∧ info.geometry = {
          width := frame.size.frameWidth, height := frame.size.frameHeight
          columns := layout.columns, rows := layout.rows, x := rect.x, y := rect.y
          tileWidth := rect.width, tileHeight := rect.height }

/-- Packets that place a frame say how many columns it has. -/
theorem FrameHeader.PlacedBy.columns {frame : FrameHeader} {unit : Bytes} {packets : List Packet}
    (placed : frame.PlacedBy unit packets) {carrier : Packet} (member : carrier ∈ packets) :
    ∃ info, TileInfo.splitPacket carrier.data = .ok (info, unit) ∧
      frame.layout.map TileLayout.columns = some info.geometry.columns := by
  obtain ⟨layout, cut, -, each⟩ := placed
  obtain ⟨index, found⟩ := List.mem_iff_getElem?.1 member
  obtain ⟨info, _, told, -, geometry⟩ := each index carrier found
  refine ⟨info, told, ?_⟩
  rw [cut, geometry]
  rfl

namespace TileSplitter

variable {config : SplitConfig} {splitter behind : TileSplitter} {packet : Packet}
  {unit : List ParsedObu} {decoder : DecoderState} {survey : Survey} {layout : TileLayout}
  {packets : List Packet}

/-- A frame is placed by the packets of a unit if each of its tiles sits where the layout has one
    that the unit is split by. -/
theorem Arrived.placedBy_iff (arrived : Arrived config splitter packet unit decoder)
    (success : Survey.ofUnit unit = .ok survey) (framed : layout.Framed)
    (made : Split.MadeOf packet unit survey layout packets) {frame : FrameHeader}
    {own : TileLayout} (cut : frame.layout = some own)
    (width : own.grid.frameWidth = frame.size.frameWidth)
    (height : own.grid.frameHeight = frame.size.frameHeight) :
    frame.PlacedBy packet.data packets ↔ own.tileCount = layout.tileCount ∧
      ∀ tile < layout.tileCount, Split.placeIn own tile = Split.placeIn layout tile := by
  have counted := made.length_eq
  constructor
  · rintro ⟨_, same, total, each⟩
    obtain rfl := Option.some.inj (same.symm.trans cut)
    refine ⟨total.symm.trans counted, fun tile inside => ?_⟩
    have found := List.getElem?_eq_getElem (counted ▸ inside : tile < packets.length)
    obtain ⟨info, rect, told, sits, geometry⟩ := each tile _ found
    obtain ⟨-, -, placed, success, again⟩ := arrived.several success framed made found
    rw [told] at again
    obtain ⟨rfl, -⟩ := Prod.mk.inj (Except.ok.inj again)
    rw [success, Split.placeIn_eq_ok_iff]
    rw [← width, ← height] at geometry
    exact ⟨rect, sits, geometry⟩
  · rintro ⟨total, alike⟩
    refine ⟨own, cut, counted.trans total.symm, fun index carrier found => ?_⟩
    obtain ⟨-, -, geometry, placed, told⟩ := arrived.several success framed made found
    have inside : index < layout.tileCount := by
      rw [← counted]
      exact (List.getElem?_eq_some_iff.1 found).1
    obtain ⟨rect, sits, rfl⟩ :=
      Split.placeIn_eq_ok_iff.1 ((alike index inside).trans placed)
    refine ⟨_, rect, told, sits, ?_⟩
    rw [← width, ← height]
    rfl

/-- Frames of different numbers of tiles cannot be surveyed. -/
theorem Survey.Surveyed.tileCount_eq {first second : FramedGroup}
    (surveyed : Survey.empty.Surveyed none unit survey) (member : first ∈ framedGroups none unit)
    (other : second ∈ framedGroups none unit) :
    first.frame.layout.map TileLayout.tileCount = second.frame.layout.map TileLayout.tileCount := by
  obtain ⟨-, layout, cut, -, count⟩ := surveyed.each first member
  obtain ⟨-, otherLayout, otherCut, -, otherCount⟩ := surveyed.each second other
  rw [cut, otherCut, Option.map_some, Option.map_some, ← count, ← otherCount]

/-- A unit whose frames with tile groups have different numbers of tiles comes back as it was. Of
    one that is split into several packets, the packets place a frame with tile groups just if it is
    cut as the last frame of the unit. -/
theorem Ran.places_frames (ran : Ran config splitter)
    (parsed : Decode.parseUnit packet.data splitter.decoder = .ok unit decoder) :
    (∀ first ∈ framedGroups none unit, ∀ second ∈ framedGroups none unit,
      first.frame.layout.map TileLayout.tileCount ≠ second.frame.layout.map TileLayout.tileCount →
        (splitter.filter packet).1 = [packet]) ∧
    (framedGroups none unit ≠ [] → 1 < (splitter.filter packet).1.length →
      ∃ last, lastFrame none unit = some last ∧ ∀ held ∈ framedGroups none unit,
        (held.frame.PlacedBy packet.data (splitter.filter packet).1 ↔
          held.frame.layout.map TileLayout.placement = last.layout.map TileLayout.placement)) := by
  have arrived := ran.sound.arrived parsed
  obtain ⟨_, _, failed, -⟩ | ⟨_, _, again, outcome⟩ := splitter.filter_cases packet
  · rw [failed] at parsed
    cases parsed
  rw [parsed] at again
  cases again
  obtain ⟨packets, behind, split, same⟩ | ⟨cause, behind, -, same⟩ := outcome
  · rw [same]
    obtain ⟨survey, success, cases⟩ := Split.tilePackets_sound split
    have surveyed := arrived.surveyed success
    refine ⟨fun first member second other differ => ?_, fun present several => ?_⟩
    · exact absurd (surveyed.tileCount_eq member other) differ
    obtain ⟨layout, chosen, made⟩ | ⟨_, _, carrier, -, -, rfl, -⟩ := cases
    · obtain ⟨last, found, cut⟩ := Option.bind_eq_some_iff.1
        ((arrived.chosen_layout success chosen).resolve_right fun last => present last.1)
      have framed := Split.splitLayout_framed arrived.sound (fun _ => arrived.framed success) chosen
      have tiles : 1 ≤ layout.tileCount := by
        rw [← made.length_eq]
        exact Nat.le_of_lt several
      refine ⟨last, found, fun held member => ?_⟩
      obtain ⟨begun, -⟩ := surveyed.each held member
      obtain ⟨own, ownCut, ownFramed, width, height⟩ := begun.layout
      rw [arrived.placedBy_iff success framed made ownCut width height,
        Split.placeIn_alike_iff ownFramed framed tiles, ownCut, cut]
      exact (Option.some_inj).symm
    · exact absurd several (Nat.lt_irrefl 1)
  · rw [same]
    exact ⟨fun _ _ _ _ _ => rfl, fun _ several => absurd several (Nat.lt_irrefl 1)⟩

/-- Two frames of two tiles, the second of which has `cuts` in its header. -/
def twoFrames (cuts : UInt8) : Packet where
  data := [0x12, 0x00, 0x0A, 0x06, 0x18, 0x19, 0xBF, 0xFF, 0x00, 0x02,
    0x1A, 0x02, 0x18, 0x40, 0x22, 0x05, 0x00, 0x01, 0xAA, 0xAB, 0xBB,
    0x1A, 0x02, cuts, 0x40, 0x22, 0x04, 0x00, 0x00, 0xCC, 0xDD]
  pts := none
  dts := none
  flags := 0
  streamIndex := 0
  tileIndex := none

/-- Two frames of two columns are both placed. -/
theorem Ran.places_frames_two_alike :
    ∃ splitter packet unit decoder, Ran .default splitter ∧
      Decode.parseUnit packet.data splitter.decoder = .ok unit decoder ∧
      (splitter.filter packet).1.length = 2 ∧ (framedGroups none unit).length = 2 ∧
      ∀ held ∈ framedGroups none unit,
        held.frame.PlacedBy packet.data (splitter.filter packet).1 := by
  have ran : Ran .default ⟨.default, .empty, none⟩ := .opened rfl
  have two : (TileSplitter.filter ⟨.default, .empty, none⟩ (twoFrames 0x18)).1.length = 2 := by
    decide +kernel
  have checked : Step.Succeeds (fun unit _ => (framedGroups none unit).length = 2 ∧
      ∀ held ∈ framedGroups none unit, held.frame.layout.map TileLayout.placement =
        (lastFrame none unit).bind fun last => last.layout.map TileLayout.placement)
      (Decode.parseUnit (twoFrames 0x18).data .empty) := by
    decide +kernel
  obtain ⟨unit, decoder, parsed, groups, alike⟩ := checked.eq_ok
  refine ⟨_, _, unit, decoder, ran, parsed, two, groups, fun held member => ?_⟩
  obtain ⟨last, found, placed⟩ :=
    (ran.places_frames parsed).2 (List.ne_nil_of_mem member) (by rw [two]; decide)
  have same := alike held member
  rw [found] at same
  exact (placed held member).2 same

/-- Behind a frame of two columns one of two rows takes its place: both are two tiles. -/
theorem not_places_frames :
    ∃ unit decoder, Ran .default ⟨.default, .empty, none⟩ ∧
      Decode.parseUnit (twoFrames 0x14).data .empty = .ok unit decoder ∧
      1 < (filter ⟨.default, .empty, none⟩ (twoFrames 0x14)).1.length ∧
      ∃ held ∈ framedGroups none unit, ¬held.frame.PlacedBy (twoFrames 0x14).data
        (filter ⟨.default, .empty, none⟩ (twoFrames 0x14)).1 := by
  have several : 1 < (filter ⟨.default, .empty, none⟩ (twoFrames 0x14)).1.length := by
    decide +kernel
  have checked : Step.Succeeds (fun unit _ => ∃ held ∈ framedGroups none unit,
      held.frame.layout.map TileLayout.columns = some 2)
      (Decode.parseUnit (twoFrames 0x14).data .empty) := by
    decide +kernel
  have single : ∀ carrier ∈ (filter ⟨.default, .empty, none⟩ (twoFrames 0x14)).1,
      (TileInfo.splitPacket carrier.data).map (·.1.geometry.columns) = .ok 1 := by
    decide +kernel
  obtain ⟨unit, decoder, parsed, held, member, columns⟩ := checked.eq_ok
  refine ⟨unit, decoder, .opened rfl, parsed, several, held, member, fun placed => ?_⟩
  obtain ⟨carrier, present⟩ := List.exists_mem_of_length_pos (Nat.lt_of_succ_lt several)
  obtain ⟨info, told, same⟩ := placed.columns present
  have known := single carrier present
  rw [told] at known
  have one : info.geometry.columns = 1 := Except.ok.inj known
  rw [same, one] at columns
  cases columns

end TileSplitter

end Av1Tiling
