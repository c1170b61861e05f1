import Av1Tiling.Bytes
import Av1Tiling.StreamError

/-!
# Byte cursors

A run of bytes and a position in it. The position may be set anywhere, also behind the end, where
nothing remains.
-/

namespace Av1Tiling

/-- A position in a run of bytes. -/
structure Cursor where
  data : Bytes
  pos : Nat
  deriving Repr, DecidableEq

namespace Cursor

/-- A cursor in front of `data`. -/
def ofBytes (data : Bytes) : Cursor :=
  ⟨data, 0⟩

/-- The bytes from the position on. -/
def rest (cursor : Cursor) : Bytes :=
  cursor.data.drop cursor.pos

/-- Number of bytes from the position on. -/
def remaining (cursor : Cursor) : Nat :=
  cursor.data.length - min cursor.pos cursor.data.length

/-- Moves the cursor to `pos`. -/
def seek (cursor : Cursor) (pos : Nat) : Cursor :=
  { cursor with pos }

/-- Takes the next `size` bytes. To take no bytes from behind the end is a fault: the length asked
    for is there, the place is not. -/
def extract (cursor : Cursor) (size : Nat) : Except (Failure StreamError) (Bytes × Cursor) :=
  if cursor.remaining < size then
    .error (.raised (.tooFewBytes size cursor.remaining))
  else if cursor.data.length < cursor.pos + size then
    .error (.fault (.outsideBuffer cursor.pos (cursor.pos + size) cursor.data.length))
  else
    .ok (cursor.data.slice cursor.pos size, cursor.seek (cursor.pos + size))

/-- Takes everything from the position on. -/
def extractRest (cursor : Cursor) : Except (Failure StreamError) (Bytes × Cursor) :=
  cursor.extract cursor.remaining

theorem remaining_eq_length_rest (cursor : Cursor) : cursor.remaining = cursor.rest.length := by
  simp [remaining, rest]; omega

/-- What is behind some bytes of the rest. -/
theorem rest_seek {cursor : Cursor} {bytes more : Bytes} (here : cursor.rest = bytes ++ more) :
    (cursor.seek (cursor.pos + bytes.length)).rest = more := by
  rw [Cursor.rest, seek, ← List.drop_drop]
  exact (congrArg (List.drop bytes.length) here).trans List.drop_left

end Cursor

end Av1Tiling
