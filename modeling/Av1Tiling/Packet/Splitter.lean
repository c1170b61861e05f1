import Av1Tiling.Decoder
import Av1Tiling.Packet
import Av1Tiling.Packet.Config
import Av1Tiling.Packet.TileInfo

/-!
# Splitting units into tile packets

A splitter turns a unit into one packet per tile. Each packet holds the whole unit behind a tile
info that says where the bytes of its tile are. Frames of several tiles are placed by their own
layout; a unit whose frames have a single tile is itself a tile, placed by the configuration. A
unit that cannot be parsed or described is passed on as it is.
-/

namespace Av1Tiling

/-- A splitter in the middle of a stream. -/
structure TileSplitter where
  config : SplitConfig
  decoder : DecoderState
  /-- The layout of the last frame of several tiles, which units without tile groups go by. -/
  lastLayout : Option TileLayout
  deriving Repr, DecidableEq

namespace TileSplitter

/-- A splitter in front of a stream, if the configuration is valid. -/
def ofConfig (config : SplitConfig) : Except PacketError TileSplitter :=
  match config.validate with
  | .ok () => .ok { config, decoder := .empty, lastLayout := none }
  | .error cause => .error (.config cause)

/-- The splitter in front of another stream. -/
def reset (splitter : TileSplitter) : TileSplitter :=
  { splitter with decoder := .empty, lastLayout := none }

/-- A tile group and where its payload starts in the unit. -/
structure PlacedGroup where
  payloadOffset : Nat
  group : TileGroup
  deriving Repr, DecidableEq

/-- What the OBUs of a unit say about its tiles. -/
structure Survey where
  /-- The layout of the last frame. -/
  layout : Option TileLayout
  /-- The number of tiles of all frames that have tile groups. -/
  tileCount : Option Nat
  groups : List PlacedGroup
  deriving Repr, DecidableEq

namespace Survey

def empty : Survey where
  layout := none
  tileCount := none
  groups := []

/-- Adds a tile group of the last frame. -/
def addGroup (survey : Survey) (obu : Obu) (group : TileGroup) : Except PacketError Survey := do
  let some layout := survey.layout | throw (.missingFrameHeader obu.offset)
  let count := survey.tileCount.getD layout.tileCount
  if count ≠ layout.tileCount then
    throw (.tileInfo (.mixedFrames count layout.tileCount))
  return {
    survey with
    tileCount := some count
    groups := survey.groups ++ [{ payloadOffset := obu.payloadOffset, group }] }

/-- Adds an OBU. Tiles that do not come in tile groups are an error. -/
def add (survey : Survey) (parsed : ParsedObu) : Except PacketError Survey :=
  match parsed.content with
  | .frameHeader frame => .ok { survey with layout := frame.layout <|> survey.layout }
  | .tileGroup group => survey.addGroup parsed.obu group
  | .frame _ => .error (.unsupportedObu .frame parsed.obu.offset)
  | .temporalDelimiter | .sequenceHeader _ | .frameHeaderCopy | .other =>
    if parsed.obu.header.type = .tileList then
      .error (.unsupportedObu .tileList parsed.obu.offset)
    else
      .ok survey

/-- The survey of a unit. A tile info has room for only so many tile groups. -/
def ofUnit (unit : List ParsedObu) : Except PacketError Survey := do
  let survey ← unit.foldlM add empty
  if TileInfo.maxGroups < survey.groups.length then
    throw (.tileInfo (.tooManyGroups survey.groups.length TileInfo.maxGroups))
  return survey

/-- Where the bytes of a tile are in one tile group. -/
def spanIn (tile : Nat) (placed : PlacedGroup) : DataSpan :=
  match placed.group.tiles.find? (·.tile == tile) with
  | some span => { size := span.size, offset := placed.payloadOffset + span.offset }
  | none => .empty

/-- Where the bytes of a tile are in each tile group. -/
def spans (survey : Survey) (tile : Nat) : List DataSpan :=
  survey.groups.map (spanIn tile)

/-- What the packet of a tile says of it. Of the size of the unit it has room for 32 bits. -/
def tileInfo (survey : Survey) (data : Bytes) (unit : List ParsedObu) (geometry : TileGeometry)
    (tile : Nat) : TileInfo where
  geometry := geometry
  obus := unit.map fun parsed => ObuEntry.ofObu parsed.obu
  unitSize := data.length % Checked.wordBound
  groups := survey.spans tile

end Survey

/-- A step of a splitter. -/
abbrev Split := EStateM PacketError TileSplitter

namespace Split

/-- The layout that a unit is split by, if it has several tiles. A unit with tile groups goes by
    its last frame, one without by the last unit that had several tiles. -/
def splitLayout (survey : Survey) : Split (Option TileLayout) := do
  match survey.tileCount, survey.layout with
  | some count, some layout =>
    if 1 < count then
      modify fun splitter => { splitter with lastLayout := some layout }
      return some layout
    else
      return none
  | some _, none => return none
  | none, _ => return (← get).lastLayout

/-- Where a tile sits that a frame is cut into. -/
def placeIn (layout : TileLayout) (tile : Nat) : Except PacketError TileGeometry :=
  match layout.rect? tile with
  | some rect => .ok {
      width := layout.grid.frameWidth, height := layout.grid.frameHeight
      columns := layout.columns, rows := layout.rows, x := rect.x, y := rect.y
      tileWidth := rect.width, tileHeight := rect.height }
  | none => .error (.tileInfo (.tileOutside tile))

/-- Where a unit sits that is a single tile: where the configuration says, or everywhere. -/
def placeUnit (layout : Option TileLayout) : Split TileGeometry := do
  let splitter ← get
  match splitter.config.geometry, layout with
  | some geometry, _ => return geometry
  | none, some layout => return .fullFrame layout.grid.frameWidth layout.grid.frameHeight
  | none, none =>
    match splitter.decoder.sequence with
    | some sequence =>
      return .fullFrame sequence.dimensions.maxWidth sequence.dimensions.maxHeight
    | none => throw (.ofObu .noSequenceHeader)

/-- The packet of one tile of `packet`. -/
def tilePacket (packet : Packet) (info : TileInfo) (tile : Nat) : Except PacketError Packet :=
  match info.prepend packet.data with
  | .ok data => .ok { packet.withData data with tileIndex := some tile }
  | .error cause => .error (.tileInfo cause)

/-- The tile packets of a unit that could be parsed. -/
def tilePackets (packet : Packet) (unit : List ParsedObu) : Split (List Packet) := do
  let survey ← Survey.ofUnit unit
  match ← splitLayout survey with
  | some layout =>
    (List.range layout.tileCount).mapM fun tile => do
      let geometry ← placeIn layout tile
      tilePacket packet (survey.tileInfo packet.data unit geometry tile) tile
  | none =>
    let geometry ← placeUnit survey.layout
    let tile := (← get).config.tileIndex.getD 0
    return [← tilePacket packet (survey.tileInfo packet.data unit geometry 0) tile]

end Split

/-- Splits a unit, and yields the splitter behind it. A unit that cannot be parsed leaves the
    splitter alone. Parsing only ever fails for errors: nothing that a splitter goes through makes it
    fault. -/
def filter (splitter : TileSplitter) (packet : Packet) : List Packet × TileSplitter :=
  match Decode.parseUnit packet.data splitter.decoder with
  | .error _ _ => ([packet], splitter)
  | .ok unit decoder =>
    match Split.tilePackets packet unit { splitter with decoder } with
    | .ok packets splitter => (packets, splitter)
    | .error _ splitter => ([packet], splitter)

end TileSplitter

end Av1Tiling
