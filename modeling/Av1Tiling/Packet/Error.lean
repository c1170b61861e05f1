import Av1Tiling.Obu.Header
import Av1Tiling.ObuError

/-!
# Packet errors

What goes wrong when units are split into tile packets and put together again: a bad configuration,
packets that do not fit each other, a tile info that does not fit its unit, or an error in the OBUs.
-/

namespace Av1Tiling

/-- Why a configuration is refused. -/
inductive ConfigError
  | outOfRange (name : String) (value min max : Nat)
  /-- A tile of the given size and place reaches out of its frame. -/
  | outsideFrame (tileWidth tileHeight x y width height : Nat)
  | indexOutsideGrid (index tiles : Nat)
  /-- There is no room for any output. -/
  | noOutput
  deriving Repr, DecidableEq

def ConfigError.message : ConfigError → String
  | outOfRange name value min max => s!"{name} {value} outside {min}..={max}"
  | outsideFrame tileWidth tileHeight x y width height =>
    s!"tile {tileWidth}x{tileHeight} at ({x}, {y}) exceeds the {width}x{height} frame"
  | indexOutsideGrid index tiles => s!"tile index {index} outside a {tiles} tile grid"
  | noOutput => "max_output_size must be positive"

/-- Why a tile info does not describe a unit. -/
inductive TileInfoError
  | packetTooShort (size least : Nat)
  /-- The number of OBUs in a tile info that is read. -/
  | obuCount (count most : Nat)
  | obuType (code : Nat)
  /-- The number of tile groups in a tile info that is read. -/
  | groupCount (count most : Nat)
  /-- More OBUs than a tile info has room for. -/
  | tooManyObus (count most : Nat)
  /-- More tile groups than a tile info has room for. -/
  | tooManyGroups (count most : Nat)
  | unitSize (described actual : Nat)
  | spanOutside (start stop size : Nat)
  /-- Frames of different numbers of tiles in one unit. -/
  | mixedFrames (count other : Nat)
  | tileOutside (tile : Nat)
  /-- The OBUs of the tile info are not those of the unit. -/
  | inventory
  deriving Repr, DecidableEq

def TileInfoError.message : TileInfoError → String
  | packetTooShort size least =>
    s!"packet of {size} bytes is shorter than the {least} byte tile info"
  | obuCount count most => s!"OBU count {count} exceeds {most}"
  | obuType code => s!"OBU type {code} out of range"
  | groupCount count most => s!"tile group count {count} exceeds {most}"
  | tooManyObus count most => s!"{count} OBUs exceed {most}"
  | tooManyGroups count most => s!"{count} tile groups exceed {most}"
  | unitSize described actual =>
    s!"header describes {described} bytes, temporal unit has {actual}"
  | spanOutside start stop size =>
    s!"tile data {start}..{stop} outside the {size} byte temporal unit"
  | mixedFrames count other => s!"frames of {count} and {other} tiles in one temporal unit"
  | tileOutside tile => s!"tile {tile} outside the frame"
  | inventory => "OBU inventory does not match the temporal unit"

/-- What all tile packets of a unit have in common. -/
inductive PacketField
  | pts
  | dts
  | flags
  | streamIndex
  deriving Repr, DecidableEq

def PacketField.name : PacketField → String
  | .pts => "pts"
  | .dts => "dts"
  | .flags => "flags"
  | .streamIndex => "stream index"

/-- What has to fit between the tile infos of a unit. -/
inductive GridField
  | frameSize
  | grid
  | x
  | y
  | groupCount
  deriving Repr, DecidableEq

def GridField.name : GridField → String
  | .frameSize => "frame size"
  | .grid => "grid"
  | .x => "x"
  | .y => "y"
  | .groupCount => "tile group count"

/-- Why a unit could not be split or put together. -/
inductive PacketError
  | obu (cause : ObuError)
  | config (cause : ConfigError)
  | tileIndexOutOfRange (index tiles : Nat)
  | duplicateTile (index : Nat)
  | missingTileIndex
  | metadataMismatch (index : Nat) (field : PacketField)
  | geometryMismatch (index : Nat) (field : GridField)
  | tileInfo (cause : TileInfoError)
  /-- An OBU that cannot be put together from tiles. -/
  | unsupportedObu (type : ObuType) (offset : Nat)
  /-- A tile group without the header of its frame. -/
  | missingFrameHeader (offset : Nat)
  deriving Repr, DecidableEq

namespace PacketError

/-- An error in the OBUs of a unit. A tile group without a frame is an error of the unit. -/
def ofObu : ObuError → PacketError
  | .noFrameHeader offset => missingFrameHeader offset
  | cause => obu cause

def message : PacketError → String
  | obu cause => cause.message
  | config cause => s!"invalid configuration: {cause.message}"
  | tileIndexOutOfRange index tiles => s!"tile index {index} out of range for {tiles} tiles"
  | duplicateTile index => s!"tile {index} already received"
  | missingTileIndex => "packet carries no tile index"
  | metadataMismatch index field => s!"tile {index} {field.name} does not match the other tiles"
  | geometryMismatch index field => s!"tile {index} {field.name} does not match the tile grid"
  | tileInfo cause => s!"invalid tile info: {cause.message}"
  | unsupportedObu type offset => s!"unsupported OBU {type.name} at byte {offset}"
  | missingFrameHeader offset => s!"tile group at byte {offset} has no frame header"

def errorClass : PacketError → ErrorClass
  | obu cause => cause.errorClass
  | config _ => .other
  | tileInfo _ => .invalidData
  | tileIndexOutOfRange .. | duplicateTile _ | missingTileIndex | metadataMismatch ..
  | geometryMismatch .. | unsupportedObu .. | missingFrameHeader _ => .protocol

end PacketError

/-- An error in the OBUs is one of the errors of their packet. -/
instance : MonadLift (Except (Failure ObuError)) (Except (Failure PacketError)) where
  monadLift
    | .ok value => .ok value
    | .error cause => .error (cause.map .ofObu)

end Av1Tiling
