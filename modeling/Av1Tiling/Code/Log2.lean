/-!
# Rounded logarithms
-/

namespace Av1Tiling

/-- The logarithm rounded down, where that of zero counts as zero. -/
def floorLog2 (value : Nat) : Nat :=
  value.log2

/-- The least `k` for which `block * 2 ^ k` reaches `target`. -/
def tileLog2 (block target : Nat) : Nat :=
  if block = 0 ∨ target ≤ block then 0 else tileLog2 (2 * block) target + 1
termination_by target - block

theorem le_mul_tileLog2 {block : Nat} (h : block ≠ 0) (target : Nat) :
    target ≤ block * 2 ^ tileLog2 block target := by
  fun_induction tileLog2 block target with
  | case1 block hle => simp; omega
  | case2 block hlt ih =>
    have := ih (by omega)
    rw [Nat.pow_succ]
    simpa [Nat.mul_comm, Nat.mul_left_comm, Nat.mul_assoc] using this

theorem tileLog2_le {block target k : Nat} (h : target ≤ block * 2 ^ k) :
    tileLog2 block target ≤ k := by
  fun_induction tileLog2 block target generalizing k with
  | case1 block hle => simp
  | case2 block hlt ih =>
    cases k with
    | zero => simp at h; omega
    | succ k =>
      have := ih (k := k) (by
        rw [Nat.pow_succ] at h
        simpa [Nat.mul_comm, Nat.mul_left_comm, Nat.mul_assoc] using h)
      omega

end Av1Tiling
