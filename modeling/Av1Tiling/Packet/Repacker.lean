import Av1Tiling.Decoder
import Av1Tiling.Frame.Rewriting
import Av1Tiling.Packet
import Av1Tiling.Packet.Config
import Av1Tiling.Packet.TileInfo

/-!
# Putting tile packets together

A repacker waits for one packet of each tile. With the last of them it writes one unit: that of
tile 0 with its sequence header for the whole frame, its frame headers for the tiles that have come,
and one tile group per frame with the bytes of all tiles. A packet that does not fit drops what was
waiting, but the frames of the dropped unit still count for later ones.
-/

namespace Av1Tiling

/-- A tile that waits for the others of its unit. -/
structure TileSlot where
  info : TileInfo
  /-- The packet without its tile info. -/
  packet : Packet
  deriving Repr, DecidableEq

/-- The unit that a tile came with. -/
def TileSlot.unit (slot : TileSlot) : Bytes :=
  slot.packet.data

/-- A repacker in the middle of a stream. -/
structure TileRepacker where
  config : RepackConfig
  /-- The tiles of the next unit that have come, by index. -/
  slots : List (Option TileSlot)
  /-- Number of tiles that have come. -/
  filled : Nat
  decoder : DecoderState
  deriving Repr, DecidableEq

/-- The frame that the tiles of a unit make up. -/
structure TileGrid where
  /-- The geometry of tile 0. -/
  geometry : TileGeometry
  /-- Where the tile columns start. -/
  xs : List Nat
  /-- Where the tile rows start. -/
  ys : List Nat
  deriving Repr, DecidableEq

namespace TileGrid

/-- What is wrong with the geometry of tile `index` next to that of tile 0, of the top of its column
    and of the left end of its row. -/
def mismatch? (first : TileGeometry) (geometries : List TileGeometry) (index : Nat)
    (geometry : TileGeometry) : Option GridField :=
  let top := geometries[index % first.columns]?
  let left := geometries[index - index % first.columns]?
  if (geometry.width, geometry.height) ≠ (first.width, first.height) then
    some .frameSize
  else if (geometry.columns, geometry.rows) ≠ (first.columns, first.rows) then
    some .grid
  else if some geometry.x ≠ top.map TileGeometry.x then
    some .x
  else if some geometry.y ≠ left.map TileGeometry.y then
    some .y
  else
    none

/-- The frame that tiles of the given geometries make up, row by row. -/
def collect (first : TileGeometry) (geometries : List TileGeometry) :
    Except (Failure PacketError) TileGrid := do
  let tiles ← Checked.word first.tileCount
  if tiles ≠ geometries.length then throw (.raised (.geometryMismatch 0 .grid))
  for (geometry, index) in geometries.zipIdx do
    if let some field := mismatch? first geometries index geometry then
      throw (.raised (.geometryMismatch index field))
  return {
    geometry := first
    xs := (geometries.take first.columns).map TileGeometry.x
    ys := (geometries.zipIdx.filter fun (_, index) => index % first.columns == 0).map
      fun (geometry, _) => geometry.y }

/-- The frames of the unit have the size of the grid already. A unit without frames goes by its
    sequence header. -/
def matchesFrameSize (grid : TileGrid) (unit : List ParsedObu) (sequence : SequenceHeader) : Bool :=
  let frameSize := unit.findSome? fun parsed =>
    match parsed.content with
    | .frameHeader frame =>
      if frame.layout.isSome then some (frame.size.frameWidth, frame.size.frameHeight) else none
    | _ => none
  frameSize.getD (sequence.dimensions.maxWidth, sequence.dimensions.maxHeight)
    == (grid.geometry.width, grid.geometry.height)

/-- The layout of the frame that is written. The layout of the template is kept where it cuts the
    same frame at the same places. -/
def layoutFor (grid : TileGrid) (frame : FrameHeader) (sequence : SequenceHeader) :
    Except (Failure ObuError) TileLayout := do
  let superblocks ← SuperblockGrid.checked grid.geometry.width grid.geometry.height
    sequence.largeSuperblocks
  let layout ← match TileLayout.ofPixelStarts superblocks grid.xs grid.ys with
    | .ok layout => pure layout
    | .error cause => throw (.raised (.layout cause))
  match frame.layout with
  | some template =>
    if template.grid = superblocks ∧ template.sameCuts layout then return template
    else return layout
  | none => return layout

end TileGrid

/-! ## Writing a unit -/

/-- What a unit is written from. -/
structure Template where
  /-- The tiles that have come, in order. -/
  tiles : List TileSlot
  grid : TileGrid
  sequence : Option SequenceHeader
  /-- The sequence header of the whole frame, where the template has another frame size. -/
  target : Option SequenceHeader
  deriving Repr, DecidableEq

/-- A frame whose tile groups are being gathered. -/
structure OpenFrame where
  /-- The layout of the frame in the template. -/
  template : TileLayout
  /-- The layout of the frame that is written. -/
  layout : TileLayout
  deriving Repr, DecidableEq

/-- A unit that is being written. -/
structure Assembly where
  writer : BitWriter
  frame : Option OpenFrame
  /-- The first tile group of the frame. -/
  firstGroup : Nat
  /-- Number of tile groups so far. -/
  groups : Nat
  deriving Repr, DecidableEq

/-- A step of writing a unit. -/
abbrev Assemble := EStateM (Failure PacketError) Assembly

namespace Assemble

/-- Writing OBUs is a step that only touches the output. -/
instance : MonadLift Emit Assemble where
  monadLift step := fun assembly =>
    match step assembly.writer with
    | .ok value writer => .ok value { assembly with writer }
    | .error cause writer => .error (cause.map .ofObu) { assembly with writer }

/-- Writes an OBU in place of one of the template. -/
def replace (obu : Obu) (trailing : Bool) (payload : Emit Unit) : Assemble Unit := do
  let _ ← Emit.obu obu.header trailing payload

/-- Writes a sequence header for the whole frame. -/
def sequenceHeader (template : Template) (obu : Obu) (sequence : SequenceHeader) :
    Assemble Unit := do
  let dimensions := (template.target.getD sequence).dimensions
  replace obu true do
    let _ ← sequence.writeWithDimensions obu.payload dimensions.maxWidth dimensions.maxHeight

/-- Copies the header of a shown existing frame. -/
def existingFrame (obu : Obu) : Assemble Unit :=
  replace obu true do
    let stop ← TrailingBit.position obu.payload
    Write.copy obu.payload 0 stop

/-- Writes the header of a frame for the tiles that have come. -/
def frameHeader (template : Template) (obu : Obu) (frame : FrameHeader) : Assemble Unit := do
  let some sequence := template.sequence | throw (.raised (.ofObu .noSequenceHeader))
  let layout ← template.grid.layoutFor frame sequence
  replace obu true (frame.writeRewritten obu.payload template.target layout)
  modify fun assembly => {
    assembly with
    frame := frame.layout.map fun own => { template := own, layout }
    firstGroup := assembly.groups }

/-- Counts a tile group. The last one of a frame is replaced by one with the bytes of all tiles. -/
def tileGroup (template : Template) (obu : Obu) (group : TileGroup) : Assemble Unit := do
  modify fun assembly => { assembly with groups := assembly.groups + 1 }
  let assembly ← get
  let some frame := assembly.frame | throw (.raised (.missingFrameHeader obu.offset))
  if group.endsFrame frame.template then
    let tiles := template.tiles.map fun slot =>
      slot.info.tileData slot.unit assembly.firstGroup assembly.groups
    replace obu false (TileGroup.writeAll frame.layout tiles : Write Unit)
    modify fun assembly => { assembly with frame := none }

/-- Writes what takes the place of one OBU of the template. Copies, whole frames and metadata are
    left out. -/
def obu (template : Template) (parsed : ParsedObu) : Assemble Unit :=
  let obu := parsed.obu
  match parsed.content with
  | .temporalDelimiter => replace obu false (pure ())
  | .sequenceHeader sequence => sequenceHeader template obu sequence
  | .frameHeader frame =>
    if frame.showExisting then existingFrame obu else frameHeader template obu frame
  | .tileGroup group => tileGroup template obu group
  | .frameHeaderCopy | .frame _ => return
  | .other =>
    if obu.header.type = .metadata then return
    else throw (.raised (.unsupportedObu obu.header.type obu.offset))

/-- Writes a unit of at most `capacity` bytes. -/
def unit (template : Template) (parsed : List ParsedObu) (capacity : Nat) :
    Except (Failure PacketError) Bytes :=
  let step : Assemble Bytes := do
    parsed.forM (obu template)
    Emit.finish
  match step { writer := .empty capacity, frame := none, firstGroup := 0, groups := 0 } with
  | .ok data _ => .ok data
  | .error cause _ => .error cause

end Assemble

namespace TileRepacker

/-- A repacker in front of a stream, if the configuration is valid. -/
def ofConfig (config : RepackConfig) : Except PacketError TileRepacker :=
  match config.validate with
  | .ok () =>
    .ok { config, slots := List.replicate config.tileCount none, filled := 0, decoder := .empty }
  | .error cause => .error (.config cause)

/-- The tiles that have come, in order of their index. -/
def waiting (repacker : TileRepacker) : List TileSlot :=
  repacker.slots.filterMap id

/-- Number of tiles that have come. -/
def pending (repacker : TileRepacker) : Nat :=
  repacker.filled

/-- The repacker without the tiles that have come. -/
def clear (repacker : TileRepacker) : TileRepacker :=
  { repacker with slots := repacker.slots.map fun _ => none, filled := 0 }

/-- The repacker in front of another stream. -/
def reset (repacker : TileRepacker) : TileRepacker :=
  { repacker.clear with decoder := .empty }

/-- Drops the tiles that have come. The frames of their unit still count, unless it cannot be parsed.
    That is an error and no fault in any decoder that a repacker gets. -/
def abort (repacker : TileRepacker) : TileRepacker :=
  match repacker.waiting.head? with
  | none => repacker.clear
  | some slot =>
    match Decode.parseUnit slot.unit repacker.decoder with
    | .ok _ decoder => { repacker.clear with decoder }
    | .error _ _ => repacker.clear

/-- The first thing in which a packet differs from one of the same unit. -/
def difference? (packet other : Packet) : Option PacketField :=
  if packet.pts ≠ other.pts then some .pts
  else if packet.dts ≠ other.dts then some .dts
  else if packet.flags ≠ other.flags then some .flags
  else if packet.streamIndex ≠ other.streamIndex then some .streamIndex
  else none

/-- A step of a repacker. -/
abbrev Repack := EStateM (Failure PacketError) TileRepacker

namespace Repack

/-- Parses the unit of tile 0. A unit that cannot be parsed leaves the decoder as it was. -/
def parseTemplate (unit : Bytes) : Repack (List ParsedObu) := fun repacker =>
  match Decode.parseUnit unit repacker.decoder with
  | .ok parsed decoder => .ok parsed { repacker with decoder }
  | .error cause _ => .error (cause.map .ofObu) repacker

/-- What the unit is written from, if all tile infos fit the unit of tile 0. -/
def templateFor (sequence : Option SequenceHeader) (tiles : List TileSlot) (first : TileSlot)
    (parsed : List ParsedObu) : Except (Failure PacketError) Template := do
  let grid ← TileGrid.collect first.info.geometry (tiles.map (·.info.geometry))
  let obus := parsed.map ParsedObu.obu
  unless first.info.describes obus do throw (.raised (.tileInfo .inventory))
  let groupCount := obus.countP (·.header.type == .tileGroup)
  if let some index := tiles.findIdx? (·.info.groups.length != groupCount) then
    throw (.raised (.geometryMismatch index .groupCount))
  let target ← match sequence with
    | none => pure none
    | some sequence =>
      if grid.matchesFrameSize parsed sequence then
        pure none
      else
        match sequence.withDimensions grid.geometry.width grid.geometry.height with
        | .ok target => pure (some target)
        | .error cause => throw (.raised (.obu (.stream cause)))
  return { tiles, grid, sequence, target }

/-- Writes the unit that the tiles make up. -/
def merge (tiles : List TileSlot) (first : TileSlot) : Repack Packet := do
  let parsed ← parseTemplate first.unit
  let template ← templateFor (← get).decoder.sequence tiles first parsed
  let data ← Assemble.unit template parsed (← get).config.maxOutputSize
  return first.packet.withData data

/-- The slot of a packet, if it fits those that have come. -/
def slotFor (repacker : TileRepacker) (packet : Packet) : Except PacketError (Nat × TileSlot) := do
  let some index := packet.tileIndex | throw .missingTileIndex
  if repacker.config.tileCount ≤ index then
    throw (.tileIndexOutOfRange index repacker.config.tileCount)
  if (repacker.slots[index]?.join).isSome then throw (.duplicateTile index)
  if let some other := repacker.waiting.head? then
    if let some field := difference? packet other.packet then
      throw (.metadataMismatch index field)
  let (info, unit) ← TileInfo.splitPacket packet.data
  return (index, { info, packet := packet.withData unit })

/-- Takes one packet, and yields the unit if it was the last. -/
def accept (packet : Packet) : Repack (Option Packet) := do
  let (index, slot) ← slotFor (← get) packet
  modify fun repacker => {
    repacker with
    slots := repacker.slots.set index (some slot)
    filled := repacker.filled + 1 }
  let repacker ← get
  if repacker.filled < repacker.slots.length then
    return none
  else
    modify clear
    match repacker.waiting with
    | [] => throw (.fault (.outsideBuffer 0 1 0))
    | first :: rest => some <$> merge (first :: rest) first

end Repack

/-- Takes one packet and yields the unit if it was the last, together with the repacker behind it.
    After an error nothing waits any more. Behind a fault there is no repacker: it is left as the
    fault found it. -/
def filter (repacker : TileRepacker) (packet : Packet) :
    Except (Failure PacketError) (Option Packet) × TileRepacker :=
  match Repack.accept packet repacker with
  | .ok out repacker => (.ok out, repacker)
  | .error (.raised error) repacker => (.error (.raised error), repacker.abort)
  | .error (.fault cause) repacker => (.error (.fault cause), repacker)

end TileRepacker

end Av1Tiling
