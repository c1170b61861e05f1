import Av1Tiling.Bytes.Cursor
import Av1Tiling.Sei.Error

/-!
# SEI messages

Supplemental information is a run of messages, closed by a stop byte. A message is its type, its
size and so many bytes; both numbers are the sum of a run of bytes that ends with the first below
255. `readAll` and `encode` are the two directions, and a `Reader` reads message by message.
-/

namespace Av1Tiling.Sei

/-- One message. -/
structure Message where
  type : Nat
  /-- Where the message starts among the others. -/
  offset : Nat
  payload : Bytes
  deriving Repr, DecidableEq

/-- Closes the messages: a one and zeros to the end of the byte. -/
def stopByte : UInt8 := 0x80

/-- The largest number of a type or size; longer runs count as this. -/
def maxNumber : Nat := 2 ^ 32 - 1

namespace Message

/-! ## Reading -/

/-- More messages follow, and not just the stop byte and zeros. -/
def more : Bytes → Bool
  | [] => false
  | byte :: rest => byte != stopByte || rest.any (· != 0)

/-- Adds up the run of bytes at `offset`, and yields the sum with the place behind it. -/
def readNumber (sum offset : Nat) : Bytes → Except Error (Nat × Nat × Bytes)
  | [] => .error (.truncated offset 1 0)
  | byte :: rest =>
    let sum := min (sum + byte.toNat) maxNumber
    if byte = 255 then readNumber sum (offset + 1) rest else .ok (sum, offset + 1, rest)

/-- The message at `offset`, and the place behind it. -/
def read (offset : Nat) (bytes : Bytes) : Except Error (Message × Nat × Bytes) := do
  let (type, sizeOffset, bytes) ← readNumber 0 offset bytes
  let (size, start, bytes) ← readNumber 0 sizeOffset bytes
  if bytes.length < size then throw (.truncated start size bytes.length)
  return ({ type, offset, payload := bytes.take size }, start + size, bytes.drop size)

/-- Up to `count` messages from `offset` on. An error is the last item. -/
def readMany : (count offset : Nat) → Bytes → List (Except Error Message)
  | 0, _, _ => []
  | count + 1, offset, bytes =>
    if more bytes then
      match read offset bytes with
      | .error cause => [.error cause]
      | .ok (message, next, rest) => .ok message :: readMany count next rest
    else
      []

/-- All messages. Each takes two bytes at least, so there are no more of them than bytes. -/
def readAll (bytes : Bytes) : List (Except Error Message) :=
  readMany bytes.length 0 bytes

/-! ## Writing -/

/-- The run of bytes that adds up to `number`. -/
def encodeNumber (number : Nat) : Bytes :=
  List.replicate (number / 255) 255 ++ [UInt8.ofNat (number % 255)]

/-- The bytes of a message. -/
def encode (message : Message) : Bytes :=
  encodeNumber message.type ++ encodeNumber message.payload.length ++ message.payload

/-- The bytes of all messages and the stop byte. -/
def encodeAll (messages : List Message) : Bytes :=
  messages.flatMap encode ++ [stopByte]

end Message

/-! ## Message by message -/

/-- A reader of messages: where it is, and whether a message could not be read. -/
structure Reader where
  cursor : Cursor
  failed : Bool
  deriving Repr, DecidableEq

namespace Reader

/-- A reader in front of `bytes`. -/
def ofBytes (bytes : Bytes) : Reader :=
  ⟨.ofBytes bytes, false⟩

/-- What the next call yields and the reader that it leaves. There is nothing behind an error, so
    that it does not matter where an error leaves the cursor. -/
def next (reader : Reader) : Option (Except Error Message × Reader) :=
  if reader.failed = true ∨ Message.more reader.cursor.rest = false then
    none
  else
    match Message.read reader.cursor.pos reader.cursor.rest with
    | .ok (message, stop, _) => some (.ok message, ⟨reader.cursor.seek stop, false⟩)
    | .error cause => some (.error cause, ⟨reader.cursor, true⟩)

end Reader

end Av1Tiling.Sei
