import Av1Tiling.ObuError

/-!
# SEI errors
-/

namespace Av1Tiling.Sei

/-- Why SEI messages could not be read. -/
inductive Error
  | stream (cause : StreamError)
  /-- The bytes end at `offset`, where `needed` more would follow. -/
  | truncated (offset needed available : Nat)
  /-- A payload of a fixed size has another size. -/
  | payloadSize (type expected actual : Nat)
  deriving Repr, DecidableEq

namespace Error

def message : Error → String
  | stream cause => s!"I/O error: {cause.message}"
  | truncated offset needed available =>
    s!"truncated SEI at byte {offset}: need {needed} bytes, {available} available"
  | payloadSize type expected actual =>
    s!"SEI payload type {type} must be {expected} bytes, got {actual}"

def errorClass : Error → ErrorClass
  | stream cause =>
    match cause.kind with
    | .invalidData | .unexpectedEof => .invalidData
    | .invalidInput | .writeZero | .other => .other
  | truncated .. | payloadSize .. => .invalidData

end Error

end Av1Tiling.Sei
