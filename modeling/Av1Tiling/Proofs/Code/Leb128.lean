import Av1Tiling.Code.Leb128
import Av1Tiling.Proofs.Bits.Numbers
import Av1Tiling.Proofs.Bits.Writing

/-!
# The code of LEB128

A number is written in the fewest bytes. One of at most 32 bits is read from them as the number, and
nothing that is read as the number has fewer bytes.
-/

namespace Av1Tiling.Leb128

theorem size_le {count value : Nat} (fits : value < 128 ^ (count + 1)) :
    size value ≤ count + 1 := by
  induction count generalizing value with
  | zero =>
    have single : size value = 1 := by rw [size, if_pos fits]
    exact Nat.le_of_eq single
  | succ count ih =>
    rw [size]
    by_cases last : value < 128
    · rw [if_pos last]
      omega
    · rw [if_neg last]
      have later : value / 128 < 128 ^ (count + 1) :=
        Nat.div_lt_of_lt_mul (by rwa [Nat.mul_comm, ← Nat.pow_succ])
      exact Nat.succ_le_succ (ih later)

theorem byte_yields {value : Nat} (pos : Nat) (fits : value < 256) :
    (Read.bits 8).Yields pos (Bits.ofByte (UInt8.ofNat value)) value := by
  rw [Bits.ofByte_ofNat fits]
  exact (Read.bits_decodes 8).yields value pos ⟨by decide, by omega⟩

/-- A last group is the number. -/
theorem last_yields (count : Nat) {value : Nat} (pos : Nat) (last : value < 128) :
    (readGroups (count + 1)).Yields pos (Bits.ofBytes (encode value)) value := by
  rw [encode, if_pos last, Bits.ofBytes_singleton, ← List.append_nil (Bits.ofByte _)]
  refine (byte_yields pos (by omega)).bind ?_
  rw [if_pos last]
  exact .pure value _

theorem readGroups_yields {count value : Nat} (pos : Nat) (fits : value < 128 ^ (count + 1)) :
    (readGroups (count + 1)).Yields pos (Bits.ofBytes (encode value)) value := by
  induction count generalizing value pos with
  | zero => exact last_yields 0 pos fits
  | succ count ih =>
    by_cases last : value < 128
    · exact last_yields (count + 1) pos last
    · have later : value / 128 < 128 ^ (count + 1) :=
        Nat.div_lt_of_lt_mul (by rwa [Nat.mul_comm, ← Nat.pow_succ])
      have more : ¬value % 128 + 128 < 128 := by omega
      have whole : value % 128 + 128 - 128 + 128 * (value / 128) = value := by omega
      rw [encode, if_neg last, Bits.ofBytes_cons]
      refine (byte_yields pos (by omega)).bind ?_
      rw [if_neg more, ← List.append_nil (Bits.ofBytes _)]
      refine (ih _ later).bind ?_
      rw [whole]
      exact .pure value _

/-- Each group is a byte and adds seven bits. -/
theorem readGroups_sound {count value : Nat} {reader behind : BitReader}
    (run : readGroups count reader = .ok value behind) :
    ∃ used groups, reader.Advances used behind ∧ used.length = 8 * groups ∧ value < 128 ^ groups ∧
      (0 < count → 0 < groups) := by
  induction count generalizing reader value behind with
  | zero =>
    cases run
    exact ⟨[], 0, .refl reader, rfl, Nat.zero_lt_one, id⟩
  | succ count ih =>
    obtain ⟨byte, between, first, run⟩ := Step.bind_eq_ok.1 run
    obtain ⟨⟨-, narrow⟩, advances⟩ := (Read.bits_decodes 8).sound first
    split at run
    next last =>
      cases run
      exact ⟨_, 1, advances, Bits.length_ofNat 8 _, last, fun _ => Nat.zero_lt_one⟩
    next more =>
      obtain ⟨high, _, second, run⟩ := Step.bind_eq_ok.1 run
      obtain ⟨used, groups, onward, length, fits, -⟩ := ih second
      cases run
      refine ⟨_, groups + 1, advances.trans onward, ?_, ?_, fun _ => Nat.succ_pos groups⟩
      · rw [List.length_append, Bits.length_ofNat, length]
        omega
      · rw [Nat.pow_succ]
        omega

/-- Nothing that is read as a number has fewer bits than its code. -/
theorem read_sound {value : Nat} {reader behind : BitReader}
    (run : read reader = .ok value behind) :
    value ≤ maxValue ∧ ∃ used, reader.Advances used behind ∧
      (Bits.ofBytes (encode value)).length ≤ used.length := by
  obtain ⟨found, between, first, run⟩ := Step.bind_eq_ok.1 run
  obtain ⟨used, groups, advances, length, fits, some⟩ := readGroups_sound first
  obtain ⟨more, rfl⟩ := Nat.exists_eq_succ_of_ne_zero (Nat.ne_of_gt (some (by decide)))
  split at run
  next => cases run
  next small =>
    cases run
    have size := size_le fits
    refine ⟨Nat.le_of_not_lt small, used, advances, ?_⟩
    rw [Bits.length_ofBytes, length_encode, length]
    omega

/-- Nothing shorter is read as the number. -/
theorem shortest {value : Nat} {code : Bytes} {reader behind : BitReader}
    (run : read reader = .ok value behind) (stop : behind.pos = reader.pos + 8 * code.length) :
    (encode value).length ≤ code.length := by
  obtain ⟨-, used, advances, short⟩ := read_sound run
  have pos := advances.pos
  rw [Bits.length_ofBytes] at short
  omega

/-- A number is read from its code. -/
theorem read_yields {value : Nat} (pos : Nat) (fits : value ≤ maxValue) :
    read.Yields pos (Bits.ofBytes (encode value)) value := by
  have narrow : value < 128 ^ (7 + 1) := by
    rw [maxValue] at fits
    omega
  rw [← List.append_nil (Bits.ofBytes _)]
  refine (readGroups_yields pos narrow).bind ?_
  rw [if_neg (Nat.not_lt.2 fits)]
  exact .pure _ _

theorem write_appends (value : Nat) :
    Write.Appends (write value) (Bits.ofBytes (encode value)) (encode value).length :=
  (Write.each_byte_appends (encode value)).map fun _ => (encode value).length

end Av1Tiling.Leb128
