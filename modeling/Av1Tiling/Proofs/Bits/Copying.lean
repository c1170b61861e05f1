import Av1Tiling.Proofs.Bits.Numbers

/-!
# Copying bits

Bits are copied by reading them as numbers and writing these. What is written are the bits
themselves, one after the other, whatever becomes of them in the writer.
-/

namespace Av1Tiling

theorem Read.bits_yields_toNat (used : Bits) (narrow : used.length ≤ 64) (pos : Nat) :
    (bits used.length).Yields pos used used.toNat := by
  have yields := (bits_decodes used.length).yields used.toNat pos ⟨narrow, used.toNat_lt⟩
  rwa [Bits.ofNat_toNat] at yields

/-- Bits are skipped by reading them. -/
theorem Read.skip_yields (used : Bits) (pos : Nat) : (skip used.length).Yields pos used () := by
  intro rest
  -- the bits are gone through as `skip` does, up to 64 of them at a time
  generalize total : used.length = count
  induction count using Nat.strongRecOn generalizing used pos with
  | ind count ih =>
    rw [skip]
    by_cases none : count = 0
    · obtain rfl : used = [] := List.eq_nil_of_length_eq_zero (total.trans none)
      rw [if_pos none, none]
      rfl
    · have front : (used.take (min count 64)).length = min count 64 := by
        rw [List.length_take]
        omega
      have back : (used.drop (min count 64)).length = count - min count 64 := by
        rw [List.length_drop, total]
      have first := bits_yields_toNat (used.take (min count 64)) (by omega) pos
        (used.drop (min count 64) ++ rest)
      rw [front, ← List.append_assoc, List.take_append_drop] at first
      have later := ih (count - min count 64) (by omega) _ (pos + min count 64) back
      rw [if_neg none, Step.bind_of_ok first, later]
      congr 2
      omega

namespace Write

theorem bits_toNat (used : Bits) (narrow : used.length ≤ 64) :
    bits used.toNat used.length = used.forM bit := by
  rw [bits, if_neg (Nat.not_lt.2 narrow), Bits.ofNat_toNat]

/-- A few bits at a time are written as one by one. -/
theorem copyFrom_eq (used : Bits) (pos : Nat) (rest : Bits) :
    copyFrom ⟨pos, used ++ rest⟩ used.length = used.forM bit := by
  generalize total : used.length = count
  induction count using Nat.strongRecOn generalizing used pos with
  | ind count ih =>
    rw [copyFrom]
    by_cases none : count = 0
    · obtain rfl : used = [] := List.eq_nil_of_length_eq_zero (total.trans none)
      rw [if_pos none]
      rfl
    · generalize size : min count copyStep = step
      have few : step ≤ 32 ∧ 0 < step ∧ step ≤ count := by
        rw [copyStep] at size
        omega
      have front : (used.take step).length = step := by
        rw [List.length_take]
        omega
      have back : (used.drop step).length = count - step := by rw [List.length_drop, total]
      have read := Read.bits_yields_toNat (used.take step) (by omega) pos
        (used.drop step ++ rest)
      rw [front, ← List.append_assoc, List.take_append_drop] at read
      have written := bits_toNat (used.take step) (by omega)
      rw [front] at written
      have split : (used.take step ++ used.drop step).forM bit =
          (used.take step).forM bit >>= fun _ => (used.drop step).forM bit := List.forM_append
      rw [List.take_append_drop] at split
      rw [if_neg none, read, split]
      simp only [written, ih (count - step) (by omega) _ _ back]

/-- The bits `start..stop` are written, as whole bytes where they are and the writer is aligned. -/
theorem copy_eq (source : Bytes) (start stop : Nat) :
    copy source start stop = (do
      if stop < start ∨ 8 * source.length < stop then
        throw (.raised (.bitRangeOutside start stop source.length))
      if start % 8 = 0 ∧ stop % 8 = 0 ∧ (← get).aligned then
        bytes (source.slice (start / 8) (stop / 8 - start / 8))
      else
        (((Bits.ofBytes source).drop start).take (stop - start)).forM bit) := by
  rw [copy]
  by_cases outside : stop < start ∨ 8 * source.length < stop
  · rw [if_pos outside, if_pos outside]
    rfl
  have front : ((Bits.ofBytes source).take start).length = start := by
    rw [List.length_take, Bits.length_ofBytes]
    omega
  have middle : (((Bits.ofBytes source).drop start).take (stop - start)).length = stop - start := by
    rw [List.length_take, List.length_drop, Bits.length_ofBytes]
    omega
  have skipped := Read.skip_yields ((Bits.ofBytes source).take start) 0
    ((Bits.ofBytes source).drop start)
  rw [front, List.take_append_drop] at skipped
  have copied := copyFrom_eq (((Bits.ofBytes source).drop start).take (stop - start)) (0 + start)
    (((Bits.ofBytes source).drop start).drop (stop - start))
  rw [middle, List.take_append_drop] at copied
  have read : Read.skip start (.ofBytes source) = _ := skipped
  simp only [read, copied]

end Write

end Av1Tiling
