import Av1Tiling.Code.Uvlc
import Av1Tiling.Proofs.Bits.Moving
import Av1Tiling.Proofs.Bits.Writing

/-!
# The code of variable length numbers

As many zeros as the binary digits of the successor have behind the first tell how many digits to
read. So no code of a value is shorter than the one that is written; only the greatest value has
other codes, all with more zeros.
-/

namespace Av1Tiling.Uvlc

/-- The bits of a value. -/
def code (value : Nat) : Bits :=
  if value = maxValue then
    List.replicate 32 false ++ [true]
  else
    List.replicate (floorLog2 (value + 1)) false ++
      Bits.ofNat (floorLog2 (value + 1) + 1) (value + 1)

/-- The binary digits of a number are a one and those of what lies above the power of two. -/
theorem ofNat_floorLog2 {number : Nat} (positive : number ≠ 0) :
    Bits.ofNat (floorLog2 number + 1) number =
      true :: Bits.ofNat (floorLog2 number) (number - 2 ^ floorLog2 number) := by
  have least : 2 ^ floorLog2 number ≤ number := Nat.log2_self_le positive
  have split : 1 * 2 ^ floorLog2 number + (number - 2 ^ floorLog2 number) = number := by omega
  have first : number.testBit (floorLog2 number) = true := Nat.testBit_log2 positive
  have rest := Bits.ofNat_add_mul (Nat.le_refl (floorLog2 number)) 1 (number - 2 ^ floorLog2 number)
  rw [split] at rest
  rw [Bits.ofNat, first, rest]

/-- The zeros and the digit that ends them, and the digits behind. -/
theorem code_of_lt {value : Nat} (below : value ≠ maxValue) :
    code value = List.replicate (floorLog2 (value + 1)) false ++ [true] ++
      Bits.ofNat (floorLog2 (value + 1)) (value + 1 - 2 ^ floorLog2 (value + 1)) := by
  rw [code, if_neg below, ofNat_floorLog2 (Nat.succ_ne_zero value), List.append_assoc,
    List.singleton_append]

theorem floorLog2_lt {value : Nat} (word : value ≤ maxValue) (below : value ≠ maxValue) :
    floorLog2 (value + 1) < 32 := by
  rw [maxValue] at word below
  exact (Nat.log2_lt (Nat.succ_ne_zero value)).2 (by omega)

theorem check_eq_ok {value min max : Nat} :
    check value min max = .ok () ↔ min ≤ value ∧ value ≤ max := by
  rw [check]
  by_cases outside : value < min ∨ max < value
  · rw [if_pos outside]
    exact ⟨nofun, fun inside => by omega⟩
  · rw [if_neg outside]
    exact ⟨fun _ => by omega, fun _ => rfl⟩

/-- A value in range is passed on without any bit. -/
theorem checked_yields {value min max : Nat} (inside : min ≤ value ∧ value ≤ max) (pos : Nat) :
    (do check value min max; return value : Read Nat).Yields pos [] value := by
  rw [Step.lift_bind (check_eq_ok.2 inside)]
  exact .pure value pos

theorem checked_sound {found value min max : Nat} {reader behind : BitReader}
    (run : (do check found min max; return found : Read Nat) reader = .ok value behind) :
    found = value ∧ reader = behind ∧ min ≤ value ∧ value ≤ max := by
  obtain ⟨_, _, checked, last⟩ := Step.bind_eq_ok.1 run
  obtain ⟨success, rfl⟩ := Step.lift_eq_ok.1 checked
  cases last
  exact ⟨rfl, rfl, check_eq_ok.1 success⟩

/-- A number is read from its code. -/
theorem read_yields {value min max : Nat} (word : value ≤ maxValue)
    (inside : min ≤ value ∧ value ≤ max) (pos : Nat) :
    (read min max).Yields pos (code value) value := by
  by_cases greatest : value = maxValue
  · rw [code, if_pos greatest, ← List.append_nil (_ ++ _)]
    refine (readZeros_yields 32 pos).bind ?_
    rw [if_pos (Nat.le_refl 32), ← greatest]
    exact checked_yields inside _
  · have few := floorLog2_lt word greatest
    have least : 2 ^ floorLog2 (value + 1) ≤ value + 1 := Nat.log2_self_le (Nat.succ_ne_zero value)
    have most : value + 1 < 2 ^ (floorLog2 (value + 1) + 1) := Nat.lt_log2_self
    rw [Nat.pow_succ] at most
    have whole : value + 1 - 2 ^ floorLog2 (value + 1) + 2 ^ floorLog2 (value + 1) - 1 = value := by
      omega
    rw [code_of_lt greatest]
    refine (readZeros_yields _ pos).bind ?_
    rw [if_neg (Nat.not_le.2 few), ← List.append_nil (Bits.ofNat _ _)]
    have digits (pos : Nat) := (Read.bits_decodes (floorLog2 (value + 1))).yields
      (value + 1 - 2 ^ floorLog2 (value + 1)) pos ⟨by omega, by omega⟩
    refine ((digits _).map _).bind ?_
    rw [whole]
    exact checked_yields inside _

/-- Digits behind fewer than 32 zeros stand for a value that is coded with as many zeros. -/
theorem floorLog2_of_digits {zeros digits : Nat} (fits : digits < 2 ^ zeros) (few : zeros < 32) :
    floorLog2 (digits + 2 ^ zeros - 1 + 1) = zeros ∧ digits + 2 ^ zeros - 1 < maxValue := by
  have positive := Nat.two_pow_pos zeros
  have double : 2 ^ (zeros + 1) = 2 * 2 ^ zeros := by rw [Nat.pow_succ, Nat.mul_comm]
  have word : 2 ^ (zeros + 1) ≤ 2 ^ 32 := Nat.pow_le_pow_right (by decide) few
  have whole : digits + 2 ^ zeros - 1 + 1 = digits + 2 ^ zeros := by omega
  rw [whole, maxValue]
  exact ⟨(Nat.log2_eq_iff (by omega)).2 ⟨by omega, by omega⟩, by omega⟩

/-- Nothing shorter is read as the number. -/
theorem read_sound {min max value : Nat} {reader behind : BitReader}
    (run : read min max reader = .ok value behind) :
    (value ≤ maxValue ∧ min ≤ value ∧ value ≤ max) ∧
      ∃ used, reader.Advances used behind ∧ (code value).length ≤ used.length := by
  obtain ⟨zeros, between, first, run⟩ := Step.bind_eq_ok.1 run
  have advances := (readZeros_decodes.sound first).2
  by_cases many : 32 ≤ zeros
  · rw [if_pos many] at run
    obtain ⟨rfl, rfl, inside⟩ := checked_sound run
    refine ⟨⟨Nat.le_refl _, inside⟩, _, advances, ?_⟩
    rw [code, if_pos rfl]
    simp only [List.length_append, List.length_replicate]
    omega
  · rw [if_neg many] at run
    obtain ⟨found, next, second, run⟩ := Step.bind_eq_ok.1 run
    obtain ⟨rfl, rfl, inside⟩ := checked_sound run
    obtain ⟨digits, third, rfl⟩ := Step.map_eq_ok.1 second
    obtain ⟨⟨-, fits⟩, onward⟩ := (Read.bits_decodes zeros).sound third
    obtain ⟨log, below⟩ := floorLog2_of_digits fits (Nat.lt_of_not_le many)
    refine ⟨⟨Nat.le_of_lt below, inside⟩, _, advances.trans onward, ?_⟩
    rw [code_of_lt (Nat.ne_of_lt below), log]
    simp only [List.length_append, Bits.length_ofNat, Nat.le_refl]

theorem write_appends {value min max : Nat} (word : value ≤ maxValue)
    (inside : min ≤ value ∧ value ≤ max) :
    Write.Appends (write value min max) (code value) () := by
  rw [write, Step.lift_bind (check_eq_ok.2 inside), code]
  by_cases greatest : value = maxValue
  · have zeros := Write.bits_appends 0 32 (by decide)
    rw [if_pos greatest, if_pos greatest, ← Bits.ofNat_zero]
    exact zeros.bind (Write.bit_appends true)
  · have few := floorLog2_lt word greatest
    have zeros := Write.bits_appends 0 (floorLog2 (value + 1)) (by omega)
    rw [if_neg greatest, if_neg greatest, ← Bits.ofNat_zero]
    exact zeros.bind (Write.bits_appends _ _ (by omega))

end Av1Tiling.Uvlc
