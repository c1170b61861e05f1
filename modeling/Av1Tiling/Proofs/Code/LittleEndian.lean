import Av1Tiling.Code.LittleEndian
import Av1Tiling.Proofs.Bits.Numbers
import Av1Tiling.Proofs.Bits.Writing

/-!
# The code of little-endian numbers

A number of some bytes stands as these bytes, the lowest first, and so it is read and written, also
where it does not start with a byte of the stream.
-/

namespace Av1Tiling.LittleEndian

/-- The bits of a number of `size` bytes. -/
def code (size value : Nat) : Bits :=
  Bits.ofBytes (Bytes.ofNatLE size value)

/-- The lowest byte comes first, and what is left of the number behind it. -/
theorem code_succ (size value : Nat) :
    code (size + 1) value = Bits.ofNat 8 (value % 256) ++ code size (value / 256) := by
  have fits : value % 256 < 256 := Nat.mod_lt value (by decide)
  rw [code, Bytes.ofNatLE, Bits.ofBytes_cons, Bits.ofByte_ofNat fits, code]

theorem readBytes_decodes (size : Nat) :
    Read.Decodes (readBytes size) (fun value => value < 256 ^ size) (code size) := by
  induction size with
  | zero =>
    have single (value : Nat) : value = 0 ↔ value < 256 ^ 0 := by
      rw [Nat.pow_zero, Nat.lt_one_iff]
    exact (Read.Decodes.pure 0).congr single fun _ _ => rfl
  | succ size ih =>
    rw [readBytes]
    constructor
    · intro value pos below
      have low : value % 256 < 2 ^ 8 := Nat.mod_lt value (by decide)
      have high : value / 256 < 256 ^ size :=
        Nat.div_lt_of_lt_mul (by rwa [Nat.mul_comm, ← Nat.pow_succ])
      rw [code_succ, ← List.append_nil (code size _)]
      refine ((Read.bits_decodes 8).yields _ pos ⟨by decide, low⟩).bind ?_
      refine (ih.yields _ _ high).bind ?_
      rw [Nat.mod_add_div]
      exact .pure value _
    · intro reader value behind run
      obtain ⟨low, between, first, second⟩ := Step.bind_eq_ok.1 run
      obtain ⟨⟨-, fits⟩, advances⟩ := (Read.bits_decodes 8).sound first
      obtain ⟨high, last, third, fourth⟩ := Step.bind_eq_ok.1 second
      obtain ⟨below, onward⟩ := ih.sound third
      cases fourth
      have lowest : (low + 256 * high) % 256 = low := by omega
      have rest : (low + 256 * high) / 256 = high := by omega
      rw [code_succ, lowest, rest, Nat.pow_succ]
      exact ⟨by omega, advances.trans onward⟩

theorem read_decodes (size : Nat) :
    Read.Decodes (read size) (fun value => size ≤ maxBytes ∧ value < 256 ^ size) (code size) := by
  rw [read]
  by_cases wide : maxBytes < size
  · rw [if_pos wide]
    constructor
    · intro value pos legal
      exact absurd legal.1 (Nat.not_le.2 wide)
    · intro reader value behind run
      cases run
  · rw [if_neg wide]
    exact (readBytes_decodes size).congr (fun value => by omega) fun _ _ => rfl

theorem write_appends {value size : Nat} (narrow : size ≤ maxBytes) (fits : value < 256 ^ size) :
    Write.Appends (write value size) (code size value) () := by
  have legal : ¬(maxBytes < size ∨ 256 ^ size ≤ value) := by omega
  have each : Write.Appends ((Bytes.ofNatLE size value).forM fun byte => Write.bits byte.toNat 8)
      (code size value) () := Write.Appends.forM _ fun byte _ => Write.byte_appends byte
  rw [write]
  simpa only [if_neg legal] using each

end Av1Tiling.LittleEndian
