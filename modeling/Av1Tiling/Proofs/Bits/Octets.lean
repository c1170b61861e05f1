import Av1Tiling.Bits

/-!
# Bytes as runs of eight bits

A byte and its eight bits determine each other, so a run of bits whose length is a multiple of
eight is the bits of exactly one run of bytes.
-/

namespace Av1Tiling.Bits

@[simp] theorem ofBytes_nil : ofBytes [] = [] := rfl

theorem ofBytes_cons (byte : UInt8) (rest : Bytes) :
    ofBytes (byte :: rest) = ofByte byte ++ ofBytes rest := rfl

theorem ofBytes_singleton (byte : UInt8) : ofBytes [byte] = ofByte byte := by
  simp [ofBytes]

@[simp] theorem toByte_ofByte (byte : UInt8) : toByte (ofByte byte) = byte := by
  have bound := byte.toNat_lt
  rw [toByte, ofByte, toNat_ofNat, Nat.mod_eq_of_lt bound]
  simp

/-- The bits of a number that fits a byte. -/
theorem ofByte_ofNat {value : Nat} (fits : value < 256) :
    ofByte (UInt8.ofNat value) = ofNat 8 value := by
  rw [ofByte, UInt8.toNat_ofNat', Nat.mod_eq_of_lt fits]

/-- Eight bits are the bits of the byte that they write. -/
theorem ofByte_toByte {bits : Bits} (eight : bits.length = 8) : ofByte (toByte bits) = bits := by
  have bound : bits.toNat < 2 ^ 8 := by
    have := toNat_lt bits
    rwa [eight] at this
  have value : (UInt8.ofNat bits.toNat).toNat = bits.toNat := by
    simpa using Nat.mod_eq_of_lt bound
  rw [ofByte, toByte, value]
  simpa only [eight] using ofNat_toNat bits

theorem ofBytes_injective {a b : Bytes} (same : ofBytes a = ofBytes b) : a = b := by
  induction a generalizing b with
  | nil =>
    have lengths := congrArg List.length same
    rw [length_ofBytes, length_ofBytes, List.length_nil] at lengths
    exact (List.eq_nil_of_length_eq_zero (by omega)).symm
  | cons x a ih =>
    cases b with
    | nil =>
      have lengths := congrArg List.length same
      simp at lengths
    | cons y b =>
      rw [ofBytes_cons, ofBytes_cons] at same
      obtain ⟨head, tail⟩ := List.append_inj same (by simp)
      have equal : x = y := by rw [← toByte_ofByte x, head, toByte_ofByte]
      rw [equal, ih tail]

/-- Eight bits or more are an octet and what follows it. -/
theorem exists_octet {bits : Bits} (enough : 8 ≤ bits.length) :
    ∃ used rest, bits = used ++ rest ∧ used.length = 8 :=
  ⟨bits.take 8, bits.drop 8, (List.take_append_drop 8 bits).symm, List.length_take_of_le enough⟩

/-- A run of whole octets is the bits of some bytes. -/
theorem exists_ofBytes {bits : Bits} (whole : bits.length % 8 = 0) :
    ∃ bytes, ofBytes bytes = bits := by
  obtain ⟨count, length⟩ : ∃ count, bits.length = 8 * count := ⟨bits.length / 8, by omega⟩
  clear whole
  induction count generalizing bits with
  | zero => exact ⟨[], (List.eq_nil_of_length_eq_zero length).symm⟩
  | succ count ih =>
    have left : (bits.drop 8).length = 8 * count := by rw [List.length_drop]; omega
    obtain ⟨bytes, rest⟩ := ih left
    refine ⟨toByte (bits.take 8) :: bytes, ?_⟩
    rw [ofBytes_cons, rest, ofByte_toByte (by rw [List.length_take]; omega),
      List.take_append_drop]

/-- Of `count + 1` octets, `count` are left behind the first. -/
theorem length_sub_ofByte (byte : UInt8) (count : Nat) :
    (ofByte byte).length ≤ 8 * (count + 1) ∧ 8 * (count + 1) - (ofByte byte).length = 8 * count := by
  rw [length_ofByte]
  omega

theorem ofBytes_take (bytes : Bytes) (count : Nat) :
    ofBytes (bytes.take count) = (ofBytes bytes).take (8 * count) := by
  induction bytes generalizing count with
  | nil => simp
  | cons byte rest ih =>
    cases count with
    | zero => simp
    | succ count =>
      obtain ⟨fits, left⟩ := length_sub_ofByte byte count
      rw [List.take_succ_cons, ofBytes_cons, ofBytes_cons, ih, List.take_append,
        List.take_of_length_le fits, left]

theorem ofBytes_drop (bytes : Bytes) (count : Nat) :
    ofBytes (bytes.drop count) = (ofBytes bytes).drop (8 * count) := by
  induction bytes generalizing count with
  | nil => simp
  | cons byte rest ih =>
    cases count with
    | zero => simp
    | succ count =>
      obtain ⟨fits, left⟩ := length_sub_ofByte byte count
      rw [List.drop_succ_cons, ofBytes_cons, ih, List.drop_append,
        List.drop_eq_nil_of_le fits, left, List.nil_append]

/-- The bits of a slice are a slice of the bits. -/
theorem ofBytes_slice (bytes : Bytes) (start size : Nat) :
    ofBytes (bytes.slice start size) = ((ofBytes bytes).drop (8 * start)).take (8 * size) := by
  rw [Bytes.slice, ofBytes_take, ofBytes_drop]

theorem ofNat_zero (count : Nat) : ofNat count 0 = List.replicate count false := by
  induction count with
  | zero => rfl
  | succ count ih => rw [ofNat, ih, Nat.zero_testBit, List.replicate_succ]

/-- Bytes of zeros are zeros. -/
theorem ofBytes_zeros (zeros : Nat) :
    ofBytes (List.replicate zeros 0) = List.replicate (8 * zeros) false := by
  induction zeros with
  | zero => rfl
  | succ zeros ih =>
    rw [List.replicate_succ, ofBytes_cons, ih, Nat.mul_succ, Nat.add_comm,
      ← List.replicate_append_replicate]
    rfl

theorem toNat_singleton (bit : Bool) : toNat [bit] = bit.toNat := by
  cases bit <;> rfl

theorem drop_ofNat (skipped count value : Nat) :
    (ofNat count value).drop skipped = ofNat (count - skipped) value := by
  induction skipped generalizing count with
  | zero => rfl
  | succ skipped ih =>
    cases count with
    | zero => rw [Nat.zero_sub]; rfl
    | succ count => rw [ofNat, List.drop_succ_cons, ih, Nat.add_sub_add_right]

theorem toNat_ofByte (byte : UInt8) : (ofByte byte).toNat = byte.toNat := by
  rw [ofByte, toNat_ofNat, Nat.mod_eq_of_lt byte.toNat_lt]

end Av1Tiling.Bits
