import Av1Tiling.Bytes

/-!
# Bits

The one view of coded data: a list of bits, most significant first. A number of `count` bits and
the list of its bits determine each other (`toNat_ofNat`, `ofNat_toNat`), and a run of bytes is
eight bits per byte.
-/

namespace Av1Tiling

/-- A run of bits, most significant bit first. -/
abbrev Bits := List Bool

namespace Bits

/-- The number written by `bits`. -/
def toNat (bits : Bits) : Nat :=
  bits.foldl (fun value bit => 2 * value + bit.toNat) 0

/-- The `count` lowest bits of `value`. -/
def ofNat : (count value : Nat) → Bits
  | 0, _ => []
  | count + 1, value => value.testBit count :: ofNat count value

/-- The eight bits of a byte. -/
def ofByte (byte : UInt8) : Bits :=
  ofNat 8 byte.toNat

/-- The bits of a run of bytes. -/
def ofBytes (bytes : Bytes) : Bits :=
  bytes.flatMap ofByte

/-- The byte written by eight bits; the last eight of a longer run. -/
def toByte (bits : Bits) : UInt8 :=
  UInt8.ofNat bits.toNat

@[simp] theorem length_ofNat (count value : Nat) : (ofNat count value).length = count := by
  induction count with
  | zero => rfl
  | succ count ih => simp [ofNat, ih]

@[simp] theorem length_ofByte (byte : UInt8) : (ofByte byte).length = 8 :=
  length_ofNat 8 _

@[simp] theorem length_ofBytes (bytes : Bytes) : (ofBytes bytes).length = 8 * bytes.length := by
  induction bytes with
  | nil => rfl
  | cons byte rest ih =>
    rw [ofBytes] at ih
    simp only [ofBytes, List.flatMap_cons, List.length_append, length_ofByte, List.length_cons, ih]
    omega

theorem ofBytes_append (a b : Bytes) : ofBytes (a ++ b) = ofBytes a ++ ofBytes b := by
  simp [ofBytes]

theorem foldl_eq (bits : Bits) (value : Nat) :
    bits.foldl (fun value bit => 2 * value + bit.toNat) value
      = value * 2 ^ bits.length + bits.toNat := by
  induction bits generalizing value with
  | nil => simp [toNat]
  | cons bit rest ih =>
    simp only [toNat, List.foldl_cons, List.length_cons]
    rw [ih, ih (2 * 0 + bit.toNat), Nat.pow_succ, Nat.add_mul, Nat.add_mul]
    simp only [Nat.mul_zero, Nat.zero_mul, Nat.zero_add]
    rw [Nat.mul_comm 2 value, Nat.mul_assoc, Nat.mul_comm 2, Nat.add_assoc]

theorem toNat_append (a b : Bits) : toNat (a ++ b) = a.toNat * 2 ^ b.length + b.toNat := by
  rw [toNat, List.foldl_append, foldl_eq]
  rfl

theorem toNat_cons (bit : Bool) (rest : Bits) :
    toNat (bit :: rest) = bit.toNat * 2 ^ rest.length + rest.toNat := by
  rw [toNat, List.foldl_cons, foldl_eq]
  simp

theorem toNat_lt (bits : Bits) : bits.toNat < 2 ^ bits.length := by
  induction bits with
  | nil => simp [toNat]
  | cons bit rest ih =>
    rw [toNat_cons, List.length_cons, Nat.pow_succ]
    cases bit <;> simp <;> omega

/-- Writing a number in `count` bits and reading it keeps what `count` bits can hold. -/
theorem toNat_ofNat (count value : Nat) : toNat (ofNat count value) = value % 2 ^ count := by
  induction count with
  | zero => simp [ofNat, toNat, Nat.mod_one]
  | succ count ih =>
    have hbit : (value.testBit count).toNat = value / 2 ^ count % 2 := by
      rw [Nat.testBit_eq_decide_div_mod_eq]
      rcases Nat.mod_two_eq_zero_or_one (value / 2 ^ count) with h | h <;> simp [h]
    rw [ofNat, toNat_cons, ih, length_ofNat, hbit, Nat.mod_pow_succ, Nat.mul_comm, Nat.add_comm]

/-- The low bits of a number do not see what is added above them. -/
theorem ofNat_add_mul {count width : Nat} (h : count ≤ width) (high low : Nat) :
    ofNat count (high * 2 ^ width + low) = ofNat count low := by
  induction count with
  | zero => rfl
  | succ count ih =>
    obtain ⟨k, rfl⟩ : ∃ k, width = count + 1 + k := ⟨width - (count + 1), by omega⟩
    have hsplit : high * 2 ^ (count + 1 + k) + low
        = low + 2 ^ count * (2 * (2 ^ k * high)) := by
      rw [Nat.pow_add, Nat.pow_add, Nat.add_comm]
      simp [Nat.mul_comm, Nat.mul_left_comm, Nat.mul_assoc]
    rw [ofNat, ofNat, ih (by omega), Nat.testBit_eq_decide_div_mod_eq,
      Nat.testBit_eq_decide_div_mod_eq, hsplit, Nat.add_mul_div_left _ _ (Nat.two_pow_pos count),
      Nat.add_mul_mod_self_left]

/-- Reading a run of bits and writing it in as many bits restores it. -/
theorem ofNat_toNat (bits : Bits) : ofNat bits.length bits.toNat = bits := by
  induction bits with
  | nil => rfl
  | cons bit rest ih =>
    rw [List.length_cons, ofNat, toNat_cons, ofNat_add_mul (Nat.le_refl _), ih,
      Nat.testBit_eq_decide_div_mod_eq, Nat.add_comm (bit.toNat * _),
      Nat.add_mul_div_right _ _ (Nat.two_pow_pos _), Nat.div_eq_of_lt (toNat_lt rest)]
    cases bit <;> simp

end Bits

end Av1Tiling
