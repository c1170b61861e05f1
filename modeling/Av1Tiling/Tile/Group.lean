import Av1Tiling.Tile.Layout

/-!
# Tile groups

Consecutive tiles of a frame in one payload. Every tile but the last is preceded by its size, and
the last one takes the rest. `read` finds the tiles, `writeAll` writes all tiles of a frame as one
group.
-/

namespace Av1Tiling

/-- Where one tile sits in the payload of a group. -/
structure TileSpan where
  tile : Nat
  offset : Nat
  size : Nat
  deriving Repr, DecidableEq

/-- The tiles of one payload. -/
structure TileGroup where
  /-- The group says which tiles it holds. -/
  rangePresent : Bool
  first : Nat
  last : Nat
  /-- Number of bytes in front of the first size or tile. -/
  headerSize : Nat
  tiles : List TileSpan
  deriving Repr, DecidableEq

namespace TileGroup

def rangeFlag : Field := .flag "tile_start_and_end_present_flag"

/-- The index of a tile of `layout`, from `least` on. The number of its bits is kept in a byte. -/
def indexField (name : String) (layout : TileLayout) (least : Nat) : Field :=
  (Field.bits name (layout.tileBits % 256)).withRange least (layout.tileCount - 1)

/-- Reads whether a group says which tiles it holds. Only a frame of several tiles has a choice. -/
def readPresent (layout : TileLayout) : Read Bool :=
  if 1 < layout.tileCount then rangeFlag.readFlag else return false

/-- Reads the first and the last tile of a group, which are those of the frame if it says nothing
    else. -/
def readRange (layout : TileLayout) (present : Bool) : Read (Nat × Nat) :=
  if present then do
    let first ← (indexField "tg_start" layout 0).read
    let last ← (indexField "tg_end" layout first).read
    return (first, last)
  else
    return (0, layout.tileCount - 1)

/-- Reads which tiles a group holds. -/
def readHeader (layout : TileLayout) : Read (Bool × Nat × Nat) := do
  let present ← readPresent layout
  let (first, last) ← readRange layout present
  Read.zeroPadding
  return (present, first, last)

/-- The size of a tile in front of `rest`, less one. -/
def sizeOf (sizeBytes tile : Nat) (rest : Bytes) : Except (Failure StreamError) Nat :=
  if rest.length < sizeBytes then
    .error (.raised (.tileSizeCutShort tile))
  else if sizeBytes = 0 ∨ 8 < sizeBytes then
    .error (.fault (.numberWidth sizeBytes))
  else
    .ok (Bytes.toNatLE (rest.take sizeBytes))

/-- The tile behind its size in `rest`, which starts at `offset`. Where it stops is not checked to
    fit 64 bits: a size of seven bytes or less cannot reach that far, and no layout that is read or
    made for given starts has sizes of more than four bytes. -/
def locateOne (sizeBytes tile offset : Nat) (rest : Bytes) :
    Except (Failure StreamError) TileSpan := do
  let size ← Checked.long ((← sizeOf sizeBytes tile rest) + 1)
  if rest.length < sizeBytes + size then
    .error (.raised (.tileCutShort tile size (offset + sizeBytes) (offset + rest.length)))
  else
    .ok { tile, offset := offset + sizeBytes, size }

/-- The tiles in `rest`, which starts at `offset`: `count` of them with their sizes, and a last
    one. -/
def locate (sizeBytes : Nat) : (count tile offset : Nat) → (rest : Bytes) →
    Except (Failure StreamError) (List TileSpan)
  | 0, tile, offset, rest => .ok [{ tile, offset, size := rest.length }]
  | count + 1, tile, offset, rest => do
    let span ← locateOne sizeBytes tile offset rest
    let tiles ← locate sizeBytes count (tile + 1) (offset + sizeBytes + span.size)
      (rest.drop (sizeBytes + span.size))
    return span :: tiles

/-- The group in `payload`, for a frame cut into `layout`. -/
def parse (payload : Bytes) (layout : TileLayout) : Except (Failure StreamError) TileGroup :=
  match Read.runOn (readHeader layout) payload with
  | .error cause _ => .error cause
  | .ok (rangePresent, first, last) reader => do
    let headerSize := reader.bytePos
    let _ ← Checked.sub payload.length headerSize
    let count ← Checked.sub last first
    let tiles ← locate layout.tileSizeBytes count first headerSize (payload.drop headerSize)
    return { rangePresent, first, last, headerSize, tiles }

/-- The group holds the last tile of the frame. -/
def endsFrame (group : TileGroup) (layout : TileLayout) : Bool :=
  group.last + 1 == layout.tileCount

/-- Writes tiles, all but the last with their sizes. -/
def writeTiles (sizeBytes : Nat) : (index : Nat) → (tiles : List Bytes) → Write Unit
  | _, [] => return
  | _, [last] => Write.bytes last
  | index, tile :: rest => do
    if tile.isEmpty then throw (.raised (.emptyTile index))
    LittleEndian.write (tile.length - 1) sizeBytes
    Write.bytes tile
    writeTiles sizeBytes (index + 1) rest

/-- Writes all tiles of a frame as one group that does not say which tiles it holds. -/
def writeAll (layout : TileLayout) (tiles : List Bytes) : Write Unit := do
  if tiles.length ≠ layout.tileCount then
    throw (.raised (.tileCount tiles.length layout.tileCount))
  if 1 < layout.tileCount then rangeFlag.writeFlag false
  Write.align
  writeTiles layout.tileSizeBytes 0 tiles

end TileGroup

end Av1Tiling
