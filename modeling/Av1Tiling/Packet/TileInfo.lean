import Av1Tiling.Obu.Stream
import Av1Tiling.Packet.Geometry

/-!
# Tile infos

What a tile packet says about its tile in front of the unit that the tile came from: where the tile
sits in the frame, which OBUs the unit has, and where in the unit the bytes of the tile are. A tile
info is a fixed number of little-endian numbers of 32 bits; entries that are not used are zero.
-/

namespace Av1Tiling

/-- One OBU of a unit. -/
structure ObuEntry where
  type : ObuType
  /-- Number of bytes of header and payload. -/
  unitSize : Nat
  payloadSize : Nat
  deriving Repr, DecidableEq

/-- The entry of an OBU. -/
def ObuEntry.ofObu (obu : Obu) : ObuEntry where
  type := obu.header.type
  unitSize := obu.unitSize
  payloadSize := obu.payload.length

/-- Bytes of a tile in one tile group of a unit. -/
structure DataSpan where
  size : Nat
  /-- Where the bytes start in the unit. -/
  offset : Nat
  deriving Repr, DecidableEq

namespace DataSpan

/-- The span of a tile that is not in the tile group. -/
def empty : DataSpan := ⟨0, 0⟩

def isEmpty (span : DataSpan) : Bool :=
  span.size == 0

def stop (span : DataSpan) : Nat :=
  span.offset + span.size

end DataSpan

/-- What a tile packet says about its tile. -/
structure TileInfo where
  geometry : TileGeometry
  /-- The OBUs of the unit, in order. -/
  obus : List ObuEntry
  /-- Number of bytes of the unit. -/
  unitSize : Nat
  /-- The bytes of the tile in each tile group of the unit, in order. -/
  groups : List DataSpan
  deriving Repr, DecidableEq

namespace TileInfo

/-- The most OBUs of a unit. -/
def maxObus : Nat := 16

/-- The most tile groups of a unit. -/
def maxGroups : Nat := 8

/-- Number of bytes of a tile info. -/
def byteSize : Nat :=
  4 * (3 * maxObus + 11 + 2 * maxGroups)

/-! ## Reading -/

/-- Reads a number. One that is cut short takes what is left. -/
def readWord : EStateM StreamError Cursor Nat := fun cursor =>
  match cursor.extract 4 with
  | .ok (bytes, behind) => .ok (Bytes.toNatLE bytes) behind
  -- no fault: only taking no bytes at all is one
  | .error _ => .error .shortRead (cursor.seek (max cursor.pos cursor.data.length))

/-- Reads `count` numbers. -/
def readWords : (count : Nat) → EStateM StreamError Cursor (List Nat)
  | 0 => return []
  | count + 1 => do
    let first ← readWord
    return first :: (← readWords count)

/-- The entries of the first `count` OBUs. -/
def entries : (count : Nat) → (types unitSizes payloadSizes : List Nat) →
    Except TileInfoError (List ObuEntry)
  | count + 1, code :: types, unitSize :: unitSizes, payloadSize :: payloadSizes => do
    if 255 < code then throw (.obuType code)
    let rest ← entries count types unitSizes payloadSizes
    return { type := .ofCode code, unitSize, payloadSize } :: rest
  | _, _, _, _ => return []

def readGeometry : EStateM StreamError Cursor TileGeometry := do
  let width ← readWord
  let height ← readWord
  let columns ← readWord
  let rows ← readWord
  let x ← readWord
  let y ← readWord
  let tileWidth ← readWord
  let tileHeight ← readWord
  return { width, height, columns, rows, x, y, tileWidth, tileHeight }

/-- A step of reading numbers is a step of reading a tile info. -/
def words {α : Type} (step : EStateM StreamError Cursor α) : EStateM PacketError Cursor α :=
  fun cursor =>
    match step cursor with
    | .ok value cursor => .ok value cursor
    | .error cause cursor => .error (.obu (.stream cause)) cursor

/-- A description that may be wrong is a step of reading a tile info. -/
def described {α : Type} : Except TileInfoError α → EStateM PacketError Cursor α
  | .ok value => return value
  | .error cause => throw (.tileInfo cause)

/-- The entries of the first `count` OBUs, if there can be as many. -/
def checkedEntries (count : Nat) (types unitSizes payloadSizes : List Nat) :
    Except TileInfoError (List ObuEntry) :=
  if maxObus < count then .error (.obuCount count maxObus)
  else entries count types unitSizes payloadSizes

/-- Reads which OBUs the unit has. -/
def readObus : EStateM PacketError Cursor (List ObuEntry) := do
  let types ← words (readWords maxObus)
  let unitSizes ← words (readWords maxObus)
  let payloadSizes ← words (readWords maxObus)
  let count ← words readWord
  described (checkedEntries count types unitSizes payloadSizes)

/-- Reads the spans of the first `count` tile groups. -/
def readSpans (count : Nat) : EStateM PacketError Cursor (List DataSpan) := do
  let sizes ← words (readWords maxGroups)
  let offsets ← words (readWords maxGroups)
  return (List.zipWith DataSpan.mk sizes offsets).take count

/-- Reads where the bytes of the tile are, for a number of tile groups that there can be. -/
def readGroups : EStateM PacketError Cursor (List DataSpan) := do
  let count ← words readWord
  if maxGroups < count then throw (.tileInfo (.groupCount count maxGroups)) else readSpans count

/-- Reads a tile info. -/
def read : EStateM PacketError Cursor TileInfo := do
  let obus ← readObus
  let geometry ← words readGeometry
  let unitSize ← words readWord
  let groups ← readGroups
  return { geometry, obus, unitSize, groups }

/-! ## Writing -/

/-- The bytes of some numbers, with zeros up to `count` of them. -/
def wordBytes (count : Nat) (values : List Nat) : Bytes :=
  (values ++ List.replicate (count - values.length) 0).flatMap (Bytes.ofNatLE 4)

def geometryWords (geometry : TileGeometry) : List Nat :=
  [geometry.width, geometry.height, geometry.columns, geometry.rows, geometry.x, geometry.y,
    geometry.tileWidth, geometry.tileHeight]

/-- The bytes of a tile info. -/
def encode (info : TileInfo) : Except TileInfoError Bytes := do
  if maxObus < info.obus.length then throw (.tooManyObus info.obus.length maxObus)
  if maxGroups < info.groups.length then throw (.tooManyGroups info.groups.length maxGroups)
  return wordBytes maxObus (info.obus.map (·.type.code))
    ++ wordBytes maxObus (info.obus.map (·.unitSize))
    ++ wordBytes maxObus (info.obus.map (·.payloadSize))
    ++ wordBytes 1 [info.obus.length]
    ++ wordBytes 8 (geometryWords info.geometry)
    ++ wordBytes 1 [info.unitSize]
    ++ wordBytes 1 [info.groups.length]
    ++ wordBytes maxGroups (info.groups.map (·.size))
    ++ wordBytes maxGroups (info.groups.map (·.offset))

/-- The data of a tile packet: the tile info, and the unit that it describes. -/
def prepend (info : TileInfo) (unit : Bytes) : Except TileInfoError Bytes := do
  if info.unitSize ≠ unit.length then throw (.unitSize info.unitSize unit.length)
  return (← info.encode) ++ unit

/-! ## Packets -/

/-- The tile info and the unit in the data of a tile packet. All spans lie inside of the unit. -/
def splitPacket (data : Bytes) : Except PacketError (TileInfo × Bytes) := do
  if data.length < byteSize then
    throw (.tileInfo (.packetTooShort data.length byteSize))
  match read (.ofBytes (data.take byteSize)) with
  | .error cause _ => throw cause
  | .ok info _ =>
    let unit := data.drop byteSize
    if info.unitSize ≠ unit.length then
      throw (.tileInfo (.unitSize info.unitSize unit.length))
    match info.groups.find? fun span => unit.length < span.stop with
    | some span => throw (.tileInfo (.spanOutside span.offset span.stop unit.length))
    | none => return (info, unit)

/-- The tile info has the entries of exactly these OBUs. -/
def describes (info : TileInfo) (obus : List Obu) : Bool :=
  info.obus == obus.map ObuEntry.ofObu

/-- The bytes of the tile in the tile groups `start..stop` of its unit. -/
def tileData (info : TileInfo) (unit : Bytes) (start stop : Nat) : Bytes :=
  ((info.groups.drop start).take (stop - start)).flatMap fun span =>
    unit.slice span.offset span.size

end TileInfo

end Av1Tiling
