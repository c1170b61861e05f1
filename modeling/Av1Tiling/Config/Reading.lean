import Av1Tiling.Config.Value
import Av1Tiling.Packet.Config
import Av1Tiling.Sei.Extractor

/-!
# Reading and writing configurations

Every configuration is read from a value and written as an object. Where null stands for a whole
configuration of splitter or repacker it means the default one.
-/

namespace Av1Tiling

namespace TileGeometry

def fieldNames : List String :=
  ["width", "height", "column", "row", "x", "y", "x_w", "y_h"]

/-- Reads a geometry, all of whose fields have to be there. -/
def ofValue? (value : ConfigValue) : Option TileGeometry := do
  let fields ← value.fields? fieldNames
  match ← fields.mapM (ConfigValue.required? ConfigValue.word?) with
  | [width, height, columns, rows, x, y, tileWidth, tileHeight] =>
    some { width, height, columns, rows, x, y, tileWidth, tileHeight }
  | _ => none

def toValue (geometry : TileGeometry) : ConfigValue :=
  let values := [geometry.width, geometry.height, geometry.columns, geometry.rows, geometry.x,
    geometry.y, geometry.tileWidth, geometry.tileHeight]
  .object (List.zipWith (fun name value => (name, .int (Int.ofNat value))) fieldNames values)

end TileGeometry

namespace SplitConfig

def ofValue? : ConfigValue → Option SplitConfig
  | .null => some default
  | value => do
    match ← value.fields? ["tile_index", "geometry"] with
    | [tileIndex, geometry] =>
      let tileIndex ← ConfigValue.optional? ConfigValue.word? tileIndex
      let geometry ← ConfigValue.optional? TileGeometry.ofValue? geometry
      some { tileIndex, geometry }
    | _ => none

/-- Writes a configuration without the fields that are left open. -/
def toValue (config : SplitConfig) : ConfigValue :=
  .object <|
    (config.tileIndex.map fun index => ("tile_index", .int (Int.ofNat index))).toList
      ++ (config.geometry.map fun geometry => ("geometry", geometry.toValue)).toList

end SplitConfig

namespace RepackConfig

def ofValue? : ConfigValue → Option RepackConfig
  | .null => some default
  | value => do
    match ← value.fields? ["tile_num", "max_output_size"] with
    | [tileCount, maxOutputSize] =>
      let tileCount ← ConfigValue.orDefault? ConfigValue.word? default.tileCount tileCount
      let maxOutputSize ←
        ConfigValue.orDefault? ConfigValue.size? default.maxOutputSize maxOutputSize
      some { tileCount, maxOutputSize }
    | _ => none

def toValue (config : RepackConfig) : ConfigValue :=
  .object [
    ("tile_num", .int (Int.ofNat config.tileCount)),
    ("max_output_size", .int (Int.ofNat config.maxOutputSize))]

end RepackConfig

namespace Sei.Config

def ofValue? (value : ConfigValue) : Option Config := do
  match ← value.fields? ["custom_payload_type"] with
  | [customType] =>
    let customType ← ConfigValue.orDefault? ConfigValue.word? default.customType customType
    some { customType }
  | _ => none

def toValue (config : Config) : ConfigValue :=
  .object [("custom_payload_type", .int (Int.ofNat config.customType))]

end Sei.Config

end Av1Tiling
