import Av1Tiling.Bits
import Av1Tiling.StreamError

/-!
# The trailing bit

The content of a payload is closed by a one, and only zeros follow. So the last one of a payload
tells where its content ends. `position` finds it among the bits, and `search` from behind in the
bytes.
-/

namespace Av1Tiling.TrailingBit

/-- The position of the last one. -/
def lastOne : Bits → Option Nat
  | [] => none
  | bit :: rest =>
    match lastOne rest with
    | some position => some (position + 1)
    | none => if bit then some 0 else none

/-- Number of bits in front of the bit that closes `payload`. -/
def position (payload : Bytes) : Except StreamError Nat :=
  match lastOne (Bits.ofBytes payload) with
  | some position => .ok position
  | none => .error .noTrailingBit

/-- Number of zeros behind the last one of a byte. -/
def zerosBehind (byte : UInt8) : Nat :=
  byte.toBitVec.ctz.toNat

/-- The position of the closing bit in the last byte that is not zero. -/
def search (payload : Bytes) : Except StreamError Nat :=
  match payload.zipIdx.reverse.find? fun entry => entry.1 != 0 with
  | some (byte, place) => .ok (8 * place + (7 - zerosBehind byte))
  | none => .error .noTrailingBit

theorem lastOne_eq_none_iff {bits : Bits} : lastOne bits = none ↔ ∀ bit ∈ bits, bit = false := by
  induction bits with
  | nil => simp [lastOne]
  | cons bit rest ih =>
    rw [lastOne]
    cases h : lastOne rest with
    | none => cases bit <;> simp_all
    | some position =>
      simp only [reduceCtorEq, List.mem_cons, forall_eq_or_imp, false_iff, not_and]
      intro _ hrest
      rw [ih.2 hrest] at h
      cases h

/-- Whatever content comes first, a one and zeros behind it end it where they begin. -/
theorem lastOne_append (content : Bits) (zeros : Nat) :
    lastOne (content ++ true :: List.replicate zeros false) = some content.length := by
  induction content with
  | nil =>
    have : lastOne (List.replicate zeros false) = none :=
      lastOne_eq_none_iff.2 fun bit hbit => List.eq_of_mem_replicate hbit
    simp [lastOne, this]
  | cons bit rest ih => simp [lastOne, ih]

end Av1Tiling.TrailingBit
