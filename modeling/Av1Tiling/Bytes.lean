/-!
# Runs of bytes

Packets, units and payloads are lists of bytes. This module holds the cut that every payload is
taken with and the two orders in which a number is laid out in bytes; reading a layout back gives
the number modulo the size of the field.
-/

-- Powers of numbers are those of the core library, whatever else is imported.
attribute [instance(2000), default_instance 20000] instPowNat

namespace Av1Tiling

/-- A run of bytes, first byte first. -/
abbrev Bytes := List UInt8

namespace Bytes

/-- The `size` bytes of `bytes` from `start` on, fewer where `bytes` ends earlier. -/
def slice (bytes : Bytes) (start size : Nat) : Bytes :=
  (bytes.drop start).take size

/-- The number whose lowest eight bits come first. -/
def toNatLE : Bytes → Nat
  | [] => 0
  | byte :: rest => byte.toNat + 256 * toNatLE rest

/-- The `size` lowest bytes of `value`, lowest first. -/
def ofNatLE : (size value : Nat) → Bytes
  | 0, _ => []
  | size + 1, value => UInt8.ofNat (value % 256) :: ofNatLE size (value / 256)

/-- The number whose highest eight bits come first. -/
def toNatBE (bytes : Bytes) : Nat :=
  toNatLE bytes.reverse

/-- The `size` lowest bytes of `value`, highest first. -/
def ofNatBE (size value : Nat) : Bytes :=
  (ofNatLE size value).reverse

@[simp] theorem length_ofNatLE (size value : Nat) : (ofNatLE size value).length = size := by
  induction size generalizing value with
  | zero => rfl
  | succ size ih => simp [ofNatLE, ih]

@[simp] theorem length_ofNatBE (size value : Nat) : (ofNatBE size value).length = size := by
  simp [ofNatBE]

/-- Reading a layout back keeps what the field has room for. -/
theorem toNatLE_ofNatLE (size value : Nat) :
    toNatLE (ofNatLE size value) = value % 256 ^ size := by
  induction size generalizing value with
  | zero => simp [ofNatLE, toNatLE, Nat.mod_one]
  | succ size ih =>
    have hb : (UInt8.ofNat (value % 256)).toNat = value % 256 := by simp
    rw [ofNatLE, toNatLE, ih, hb, Nat.pow_succ, Nat.mul_comm (256 ^ size), Nat.mod_mul]

/-- A number lays out the bytes that it was read from. -/
theorem ofNatLE_toNatLE (bytes : Bytes) : ofNatLE bytes.length (toNatLE bytes) = bytes := by
  induction bytes with
  | nil => rfl
  | cons byte rest ih =>
    have fits := byte.toNat_lt
    have low : (byte.toNat + 256 * toNatLE rest) % 256 = byte.toNat := by omega
    have high : (byte.toNat + 256 * toNatLE rest) / 256 = toNatLE rest := by omega
    rw [toNatLE, List.length_cons, ofNatLE, low, high, ih, UInt8.ofNat_toNat]

theorem toNatLE_lt (bytes : Bytes) : toNatLE bytes < 256 ^ bytes.length := by
  induction bytes with
  | nil => exact Nat.one_pos
  | cons byte rest ih =>
    have fits := byte.toNat_lt
    rw [toNatLE, List.length_cons, Nat.pow_succ]
    omega

theorem toNatBE_ofNatBE (size value : Nat) :
    toNatBE (ofNatBE size value) = value % 256 ^ size := by
  simp [toNatBE, ofNatBE, toNatLE_ofNatLE]

/-- A slice that stays inside the bytes has the length it was asked for. -/
theorem length_slice {bytes : Bytes} {start size : Nat} (h : start + size ≤ bytes.length) :
    (bytes.slice start size).length = size := by
  simp [slice]; omega

end Bytes

end Av1Tiling
