import Av1Tiling.Sequence.Header
import Av1Tiling.Tile.Grid

/-!
# Reference slots

A decoder keeps eight earlier frames. For headers it matters what each slot remembers of its frame:
whether it may still be used, its identifier, type, order hint and size.
-/

namespace Av1Tiling

/-- How a frame is predicted. -/
inductive FrameType
  | key
  | inter
  | intraOnly
  /-- An inter frame at which the stream may be switched. -/
  | switch
  deriving Repr, DecidableEq

namespace FrameType

/-- The type a code of two bits stands for. -/
def ofCode (code : Nat) : FrameType :=
  match code % 4 with
  | 0 => key
  | 1 => inter
  | 2 => intraOnly
  | _ => switch

/-- The frame uses no other frame. -/
def isIntra : FrameType → Bool
  | key | intraOnly => true
  | inter | switch => false

end FrameType

/-- The size of a frame. -/
structure FrameSize where
  /-- Width behind super-resolution. -/
  upscaledWidth : Nat
  /-- Width in front of super-resolution, which is what is cut into tiles. -/
  frameWidth : Nat
  frameHeight : Nat
  renderWidth : Nat
  renderHeight : Nat
  /-- Widths in front of super-resolution are eight of this many parts. -/
  superresDenom : Nat
  deriving Repr, DecidableEq

namespace FrameSize

/-- The size of no frame. -/
def zero : FrameSize := ⟨0, 0, 0, 0, 0, 0⟩

/-- Parts of a width in front of super-resolution. -/
def superresNum : Nat := 8

def miCols (size : FrameSize) : Nat :=
  modeInfoUnits size.frameWidth

def miRows (size : FrameSize) : Nat :=
  modeInfoUnits size.frameHeight

/-- The width that super-resolution scales up to `upscaledWidth`. -/
def downscaledWidth (upscaledWidth denom : Nat) : Except Fault Nat := do
  Checked.div (← Checked.word (upscaledWidth * superresNum + denom / 2)) denom

end FrameSize

/-- What is known of the frame in a slot. -/
structure RefSlot where
  valid : Bool
  frameId : Nat
  type : FrameType
  orderHint : Nat
  /-- The frame may be shown later. -/
  showable : Bool
  size : FrameSize
  deriving Repr, DecidableEq

/-- A slot that holds no frame. -/
def RefSlot.empty : RefSlot where
  valid := false
  frameId := 0
  type := .key
  orderHint := 0
  showable := false
  size := .zero

/-- There are slots. -/
instance RefSlots.instNeZero : @NeZero Nat Zero.ofOfNat0 8 := ⟨Nat.succ_ne_zero 7⟩

/-- The eight slots of a decoder. -/
abbrev RefSlots := Vector RefSlot 8

namespace RefSlots

/-- The slots in front of the first frame. -/
def empty : RefSlots :=
  Vector.replicate 8 .empty

/-- The slots when a shown key frame begins. -/
def invalidate (slots : RefSlots) : RefSlots :=
  slots.map fun slot => { slot with valid := false, orderHint := 0 }

/-- A frame with identifier `id` can still be told from the frame `current`. -/
def inWindow (ids : FrameIds) (current id : Nat) : Except Fault Bool := do
  let reach ← Checked.shift 32 ids.deltaLength
  let range ← Checked.shift 32 ids.idLength
  if reach < current then
    return current - reach ≤ id && id ≤ current
  else if id ≤ current then
    return true
  else
    return (← Checked.sub (← Checked.word (range + current)) reach) ≤ id

/-- The slots without those whose frames cannot be told from the frame `current` any more. -/
def expire (ids : FrameIds) (current : Nat) (slots : RefSlots) : Except Fault RefSlots :=
  slots.mapM fun slot => do
    return { slot with valid := slot.valid && (← inWindow ids current slot.frameId) }

/-- The slots with `slot` in those that `flags` has a bit for. -/
def refresh (slots : RefSlots) (flags : Nat) (slot : RefSlot) : RefSlots :=
  slots.mapIdx fun i old => if flags.testBit i then slot else old

end RefSlots

end Av1Tiling
