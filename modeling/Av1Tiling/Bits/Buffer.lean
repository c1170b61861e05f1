import Av1Tiling.Bytes
import Av1Tiling.StreamError

/-!
# Bounded buffers

An output of at most `capacity` bytes. A write goes in whole or is refused whole; what has been
written can be patched and moved in place, which is how a size is filled in behind the data that
it counts.
-/

namespace Av1Tiling

/-- Bytes written so far and the most there may ever be. -/
structure BoundedBuffer where
  capacity : Nat
  bytes : Array UInt8
  deriving Repr, DecidableEq

namespace BoundedBuffer

/-- A buffer with nothing in it. -/
def empty (capacity : Nat) : BoundedBuffer :=
  ⟨capacity, #[]⟩

/-- The bytes written so far. -/
def contents (buffer : BoundedBuffer) : Bytes :=
  buffer.bytes.toList

/-- Number of bytes written so far. -/
def size (buffer : BoundedBuffer) : Nat :=
  buffer.bytes.size

/-- Number of bytes that still fit. -/
def remaining (buffer : BoundedBuffer) : Nat :=
  buffer.capacity - buffer.size

/-- Why the buffer refuses to take `count` more bytes, if it does. -/
def refusal (buffer : BoundedBuffer) (count : Nat) : Option StreamError :=
  if buffer.remaining < count then
    some (.bufferFull count buffer.remaining buffer.capacity)
  else
    none

/-- The buffer with `data` behind its contents. -/
def push (buffer : BoundedBuffer) (data : Bytes) : BoundedBuffer :=
  { buffer with bytes := buffer.bytes ++ data }

/-- Appends `data`, unless that needs more than the capacity. -/
def append (buffer : BoundedBuffer) (data : Bytes) : Except StreamError BoundedBuffer :=
  match buffer.refusal data.length with
  | some refused => .error refused
  | none => .ok (buffer.push data)

/-- The buffer with `data` in place of its bytes from `offset` on. -/
def overwrite (buffer : BoundedBuffer) (offset : Nat) (data : Bytes) : BoundedBuffer :=
  let old := buffer.contents
  { buffer with
    bytes := (old.take offset ++ data ++ old.drop (offset + data.length)).toArray }

/-- Overwrites bytes already written, from `offset` on. -/
def patch (buffer : BoundedBuffer) (offset : Nat) (data : Bytes) :
    Except StreamError BoundedBuffer :=
  if offset + data.length ≤ buffer.size then
    .ok (buffer.overwrite offset data)
  else
    .error (.patchOutside data.length offset buffer.size)

/-- Copies the written bytes `start..stop` over those from `dest` on. -/
def move (buffer : BoundedBuffer) (start stop dest : Nat) : Except StreamError BoundedBuffer :=
  if start ≤ stop ∧ stop ≤ buffer.size ∧ dest + (stop - start) ≤ buffer.size then
    .ok (buffer.overwrite dest (buffer.contents.slice start (stop - start)))
  else
    .error (.moveOutside start stop dest buffer.size)

/-- Drops everything behind the first `count` bytes. -/
def truncate (buffer : BoundedBuffer) (count : Nat) : BoundedBuffer :=
  { buffer with bytes := buffer.bytes.take count }

@[simp] theorem length_contents (buffer : BoundedBuffer) :
    buffer.contents.length = buffer.size := by
  simp [contents, size]

@[simp] theorem contents_push (buffer : BoundedBuffer) (data : Bytes) :
    (buffer.push data).contents = buffer.contents ++ data := by
  simp [push, contents]

theorem size_push (buffer : BoundedBuffer) (data : Bytes) :
    (buffer.push data).size = buffer.size + data.length := by
  rw [← length_contents, contents_push, List.length_append, length_contents]

@[simp] theorem contents_overwrite (buffer : BoundedBuffer) (offset : Nat) (data : Bytes) :
    (buffer.overwrite offset data).contents =
      buffer.contents.take offset ++ data ++ buffer.contents.drop (offset + data.length) := by
  simp [overwrite, contents]

@[simp] theorem contents_truncate (buffer : BoundedBuffer) (count : Nat) :
    (buffer.truncate count).contents = buffer.contents.take count := by
  simp [truncate, contents]

end BoundedBuffer

end Av1Tiling
