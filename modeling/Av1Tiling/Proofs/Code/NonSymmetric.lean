import Av1Tiling.Code.NonSymmetric
import Av1Tiling.Proofs.Bits.Numbers
import Av1Tiling.Proofs.Bits.Writing

/-!
# The non-symmetric code

With `2 ^ short ≤ bound < 2 ^ (short + 1)` there are `2 ^ (short + 1) - bound` codes of `short` bits
to spare; the values behind them share the other codes of `short` bits in pairs, told apart by one
more bit.
-/

namespace Av1Tiling.NonSymmetric

/-- Number of values below `bound` that take the fewer bits. -/
def shortCount (bound : Nat) : Nat :=
  2 ^ (floorLog2 bound + 1) - bound

/-- The bits of a value below `bound`. -/
def code (bound value : Nat) : Bits :=
  if value < shortCount bound then
    Bits.ofNat (floorLog2 bound) value
  else
    let above := value - shortCount bound
    Bits.ofNat (floorLog2 bound) (shortCount bound + above / 2) ++ [above % 2 == 1]

theorem shape_eq_ok {bound : Nat} (positive : 0 < bound) :
    shape bound = .ok ⟨floorLog2 bound, shortCount bound⟩ :=
  if_neg (by omega)

/-- Short codes take less than all codes of their length, and with the pairs that makes `bound`. -/
theorem shortCount_add {bound : Nat} (positive : 0 < bound) :
    shortCount bound + bound = 2 * 2 ^ floorLog2 bound ∧ 2 ^ floorLog2 bound ≤ bound := by
  have low : 2 ^ floorLog2 bound ≤ bound := Nat.log2_self_le (by omega)
  have high : bound < 2 ^ (floorLog2 bound + 1) := Nat.lt_log2_self
  rw [Nat.pow_succ] at high
  rw [shortCount, Nat.pow_succ]
  omega

theorem bit_parity (low : Bool) (half : Nat) :
    (2 * half + low.toNat) / 2 = half ∧ ((2 * half + low.toNat) % 2 == 1) = low := by
  cases low with
  | false =>
    simp only [Bool.toNat_false, Nat.add_zero, Nat.mul_mod_right]
    exact ⟨by omega, rfl⟩
  | true =>
    simp only [Bool.toNat_true, Nat.mul_add_mod]
    exact ⟨by omega, rfl⟩

theorem code_short {bound value : Nat} (short : value < shortCount bound) :
    code bound value = Bits.ofNat (floorLog2 bound) value :=
  if_pos short

/-- A value that takes the longer code is a place among the pairs and a bit. -/
theorem code_long {bound half : Nat} (low : Bool) :
    code bound (shortCount bound + (2 * half + low.toNat)) =
      Bits.ofNat (floorLog2 bound) (shortCount bound + half) ++ [low] := by
  obtain ⟨quotient, remainder⟩ := bit_parity low half
  simp only [code, Nat.add_sub_cancel_left, quotient, remainder]
  rw [if_neg (by omega)]

/-- What a reader makes of the place of a pair and the bit. -/
theorem pair_value (count half : Nat) (low : Bool) :
    2 * (count + half) - count + low.toNat = count + (2 * half + low.toNat) := by
  omega

/-- Every value takes the short code or is a place among the pairs and a bit. -/
theorem short_or_long {bound value : Nat} (positive : 0 < bound) (below : value < bound) :
    value < shortCount bound ∨ ∃ half low, value = shortCount bound + (2 * half + Bool.toNat low) ∧
      shortCount bound + half < 2 ^ floorLog2 bound := by
  obtain ⟨sum, -⟩ := shortCount_add positive
  rcases Nat.lt_or_ge value (shortCount bound) with short | long
  · exact .inl short
  · refine .inr ⟨(value - shortCount bound) / 2, (value - shortCount bound) % 2 == 1, ?_, by omega⟩
    rcases Nat.mod_two_eq_zero_or_one (value - shortCount bound) with even | odd
    · simp [even]
      omega
    · simp [odd]
      omega

theorem read_eq {bound : Nat} (positive : 0 < bound) :
    read bound = Read.bits (floorLog2 bound) >>= fun value =>
      if value < shortCount bound then pure value
      else Read.bit >>= fun low => pure (2 * value - shortCount bound + low.toNat) := by
  rw [read, Step.lift_bind (shape_eq_ok positive)]

/-- A bound whose values have too many bits is never read below. -/
theorem read_decodes (bound : Nat) :
    Read.Decodes (read bound) (fun value => value < bound ∧ floorLog2 bound ≤ 64) (code bound) := by
  rcases Nat.eq_zero_or_pos bound with rfl | positive
  · constructor
    · intro value pos legal
      cases legal.1
    · intro reader value behind run
      cases run
  obtain ⟨sum, low⟩ := shortCount_add positive
  rw [read_eq positive]
  constructor
  · rintro value pos ⟨below, narrow⟩
    rcases short_or_long positive below with short | ⟨half, low, rfl, fits⟩
    · have first := (Read.bits_decodes (floorLog2 bound)).yields value pos ⟨narrow, by omega⟩
      rw [code_short short, ← List.append_nil (Bits.ofNat _ _)]
      refine first.bind ?_
      rw [if_pos short]
      exact .pure _ _
    · have first := (Read.bits_decodes (floorLog2 bound)).yields (shortCount bound + half) pos
        ⟨narrow, fits⟩
      rw [code_long]
      refine first.bind ?_
      rw [if_neg (by omega), ← List.append_nil [low]]
      refine (Read.bit_decodes.yields low _ trivial).bind ?_
      rw [pair_value]
      exact .pure _ _
  · intro reader value behind run
    obtain ⟨place, between, first, second⟩ := Step.bind_eq_ok.1 run
    obtain ⟨⟨narrow, fits⟩, advances⟩ := (Read.bits_decodes (floorLog2 bound)).sound first
    split at second
    next short =>
      cases second
      exact ⟨⟨by omega, narrow⟩, by rwa [code_short short]⟩
    next long =>
      obtain ⟨low, last, third, fourth⟩ := Step.bind_eq_ok.1 second
      have onward := (Read.bit_decodes.sound third).2
      cases fourth
      obtain ⟨half, rfl⟩ : ∃ half, place = shortCount bound + half :=
        ⟨place - shortCount bound, by omega⟩
      rw [pair_value, code_long]
      refine ⟨⟨?_, narrow⟩, advances.trans onward⟩
      have := Bool.toNat_le low
      omega

theorem write_appends {bound value : Nat} (below : value < bound) (narrow : floorLog2 bound ≤ 64) :
    Write.Appends (write value bound) (code bound value) () := by
  have positive : 0 < bound := by omega
  rw [write, Step.lift_bind (shape_eq_ok positive)]
  simp only [Nat.not_le.2 below, if_false]
  rcases short_or_long positive below with short | ⟨half, low, rfl, fits⟩
  · rw [code_short short]
    simp only [short, if_true]
    exact Write.bits_appends value _ narrow
  · obtain ⟨quotient, remainder⟩ := bit_parity low half
    rw [code_long]
    simp only [Nat.add_sub_cancel_left, quotient, remainder]
    rw [if_neg (by omega)]
    exact (Write.bits_appends _ _ narrow).bind (Write.bit_appends low)

end Av1Tiling.NonSymmetric
