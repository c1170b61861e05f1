import Av1Tiling.Code.Increment
import Av1Tiling.Proofs.Bits.Numbers
import Av1Tiling.Proofs.Bits.Writing

/-!
# The code of increments

A value of a range is a one for each step up from its least value and, unless it is the greatest, a
zero. A range whose greatest value lies below its least has only the least value, without any bit.
-/

namespace Av1Tiling.Increment

/-- The bits of a value of `min..=max`. -/
def code (min max value : Nat) : Bits :=
  List.replicate (value - min) true ++ if value < max then [false] else []

theorem code_of_le {min max : Nat} (le : max ≤ min) : code min max min = [] := by
  rw [code, Nat.sub_self, if_neg (by omega)]
  rfl

theorem code_min {min max : Nat} (lt : min < max) : code min max min = [false] := by
  rw [code, Nat.sub_self, if_pos lt]
  rfl

theorem code_succ {min max value : Nat} (above : min < value) :
    code min max value = [true] ++ code (min + 1) max value := by
  obtain ⟨steps, rfl⟩ : ∃ steps, value = min + 1 + steps := ⟨value - (min + 1), by omega⟩
  rw [code, code, Nat.add_sub_cancel_left, show min + 1 + steps - min = steps + 1 by omega]
  rfl

theorem read_decodes (min max : Nat) :
    Read.Decodes (read min max) (fun value => min ≤ value ∧ value ≤ Nat.max max min)
      (code min max) := by
  obtain ⟨left, distance⟩ : ∃ left, max - min = left := ⟨_, rfl⟩
  induction left generalizing min with
  | zero =>
    have reads : read min max = pure min := by
      rw [read, if_neg (by omega)]
    rw [reads]
    constructor
    · rintro value pos ⟨least, greatest⟩
      obtain rfl : value = min := by
        have top : Nat.max max min = min := Nat.max_eq_right (by omega)
        omega
      rw [code_of_le (by omega)]
      exact .pure value pos
    · intro reader value behind run
      cases run
      refine ⟨⟨Nat.le_refl _, Nat.le_max_right ..⟩, ?_⟩
      rw [code_of_le (by omega)]
      exact .refl _
  | succ left ih =>
    have onward := ih (min + 1) (by omega)
    have reads : read min max = Read.bit >>= fun more =>
        if more then read (min + 1) max else pure min := by
      rw [read, if_pos (by omega)]
    have top : Nat.max max min = max := Nat.max_eq_left (by omega)
    have top' : Nat.max max (min + 1) = max := Nat.max_eq_left (by omega)
    rw [reads, top]
    rw [top'] at onward
    constructor
    · rintro value pos ⟨least, greatest⟩
      rcases Nat.eq_or_lt_of_le least with rfl | above
      · rw [code_min (by omega)]
        exact (Read.bit_decodes.yields _ pos trivial).bind (.pure min _)
      · rw [code_succ above]
        exact (Read.bit_decodes.yields _ pos trivial).bind
          (onward.yields value _ ⟨above, greatest⟩)
    · intro reader value behind run
      obtain ⟨more, between, first, second⟩ := Step.bind_eq_ok.1 run
      have advances := (Read.bit_decodes.sound first).2
      cases more with
      | false =>
        cases second
        rw [code_min (by omega)]
        exact ⟨⟨Nat.le_refl _, by omega⟩, advances⟩
      | true =>
        obtain ⟨⟨above, greatest⟩, further⟩ := onward.sound second
        rw [code_succ above]
        exact ⟨⟨by omega, greatest⟩, advances.trans further⟩

theorem write_appends {min max value : Nat} (least : min ≤ value)
    (greatest : value ≤ Nat.max max min) :
    Write.Appends (write value min max) (code min max value) () := by
  have inside : ¬(value < min ∨ Nat.max max min < value) := by omega
  simp only [write, inside, if_false, code]
  refine (Write.fill_appends true (value - min)).bind ?_
  split
  · exact Write.bit_appends false
  · exact .pure _

end Av1Tiling.Increment
