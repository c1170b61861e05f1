import Av1Tiling.Code.Subexp
import Av1Tiling.Proofs.Code.Increment
import Av1Tiling.Proofs.Code.NonSymmetric

/-!
# The subexponential code

Every bin but the last ends where the next one starts, at a power of two. So the bin of a value is
told by its logarithm, and the code of a value is the index of this bin and the place in it.
-/

namespace Av1Tiling.Subexp

/-- The index of the last bin. -/
def lastIndex (bound : Nat) : Nat :=
  floorLog2 (bound - 1) - 3

/-- The index of the bin in which a value lies. -/
def indexOf (last value : Nat) : Nat :=
  min (if value < 8 then 0 else floorLog2 value - 2) last

/-- The value lies in the bin, and there are bits for its place. -/
def Holds (bound last index value : Nat) : Prop :=
  (bin index).offset ≤ value ∧
    if index < last then
      (bin index).width ≤ 64 ∧ value - (bin index).offset < 2 ^ (bin index).width
    else
      value - (bin index).offset < bound - (bin index).offset ∧
        floorLog2 (bound - (bin index).offset) ≤ 64

/-- The bits of the place of a value in a bin. -/
def placeCode (bound last index value : Nat) : Bits :=
  if index < last then
    Bits.ofNat (bin index).width (value - (bin index).offset)
  else
    NonSymmetric.code (bound - (bin index).offset) (value - (bin index).offset)

/-- The values that have a code: those below the bound, unless there are too many of them. -/
def Legal (bound value : Nat) : Prop :=
  Holds bound (lastIndex bound) (indexOf (lastIndex bound) value) value

/-- The bits of a value below `bound`. -/
def code (bound value : Nat) : Bits :=
  Increment.code 0 (lastIndex bound) (indexOf (lastIndex bound) value) ++
    placeCode bound (lastIndex bound) (indexOf (lastIndex bound) value) value

theorem lastBin_eq_ok {bound : Nat} (positive : 0 < bound) :
    lastBin bound = .ok (lastIndex bound) :=
  if_neg (by omega)

/-! ## Bins -/

theorem bin_of_pos {index : Nat} (positive : index ≠ 0) :
    bin index = ⟨2 + index, 2 ^ (2 + index)⟩ :=
  if_neg positive

/-- A bin ends at a power of two. -/
theorem bin_end (index : Nat) : (bin index).offset + 2 ^ (bin index).width = 2 ^ (3 + index) := by
  by_cases first : index = 0
  · rw [first]
    rfl
  · rw [bin_of_pos first, show 3 + index = 2 + index + 1 by omega, Nat.pow_succ]
    simp only
    omega

/-- The bin of a value starts at the value or below, and ends above it unless it is the last. -/
theorem bin_indexOf (last value : Nat) :
    (bin (indexOf last value)).offset ≤ value ∧
      (indexOf last value < last →
        value - (bin (indexOf last value)).offset < 2 ^ (bin (indexOf last value)).width) := by
  by_cases small : value < 8
  · have first : indexOf last value = 0 := by
      rw [indexOf, if_pos small, Nat.zero_min]
    rw [first]
    exact ⟨Nat.zero_le _, fun _ => small⟩
  · have least : 2 ^ floorLog2 value ≤ value := Nat.log2_self_le (by omega)
    have most : value < 2 ^ (floorLog2 value + 1) := Nat.lt_log2_self
    have three : 3 ≤ floorLog2 value := (Nat.le_log2 (by omega)).2 (by omega)
    have natural : indexOf last value = min (floorLog2 value - 2) last := by
      rw [indexOf, if_neg small]
    -- with a single bin there is no power of two to start at
    by_cases only : last = 0
    · have first : indexOf last value = 0 := by omega
      rw [first]
      exact ⟨Nat.zero_le _, fun below => by omega⟩
    · rw [bin_of_pos (by omega)]
      refine ⟨Nat.le_trans (Nat.pow_le_pow_right (by decide) (by omega)) least, fun below => ?_⟩
      have own : 2 + indexOf last value = floorLog2 value := by omega
      simp only [own]
      rw [Nat.pow_succ] at most
      omega

/-- No other bin holds the value. -/
theorem Holds.index_eq {bound last index value : Nat} (holds : Holds bound last index value)
    (le : index ≤ last) : indexOf last value = index := by
  obtain ⟨start, inside⟩ := holds
  by_cases first : index = 0
  · subst first
    by_cases only : last = 0
    · rw [only, indexOf, Nat.min_zero]
    · rw [if_pos (Nat.pos_of_ne_zero only)] at inside
      have small : value < 8 := inside.2
      rw [indexOf, if_pos small, Nat.zero_min]
  · have stop := bin_end index
    simp only [bin_of_pos first] at start inside stop
    have eight : 2 ^ 3 ≤ 2 ^ (2 + index) := Nat.pow_le_pow_right (by decide) (by omega)
    have least : 2 + index ≤ floorLog2 value := (Nat.le_log2 (by omega)).2 start
    rw [indexOf, if_neg (by omega)]
    by_cases below : index < last
    · rw [if_pos below] at inside
      have most : floorLog2 value < 3 + index := (Nat.log2_lt (by omega)).2 (by omega)
      omega
    · omega

theorem Holds.lt {bound index value : Nat} (holds : Holds bound (lastIndex bound) index value) :
    value < bound := by
  obtain ⟨start, inside⟩ := holds
  by_cases below : index < lastIndex bound
  · rw [if_pos below] at inside
    -- the next bin starts below the bound
    have stop := bin_end index
    rw [lastIndex] at below
    have some : bound - 1 ≠ 0 := by
      intro none
      rw [none] at below
      cases below
    have last : 2 ^ floorLog2 (bound - 1) ≤ bound - 1 := Nat.log2_self_le some
    have next : 2 ^ (3 + index) ≤ 2 ^ floorLog2 (bound - 1) :=
      Nat.pow_le_pow_right (by decide) (by omega)
    omega
  · rw [if_neg below] at inside
    omega

/-! ## Reading and writing -/

theorem place_decodes (bound last index : Nat) :
    Read.Decodes
      (if index < last then Read.bits (bin index).width >>= fun place =>
        pure (place + (bin index).offset)
      else NonSymmetric.read (bound - (bin index).offset) >>= fun place =>
        pure (place + (bin index).offset))
      (Holds bound last index) (placeCode bound last index) := by
  have plain := (Read.bits_decodes (bin index).width).shift (bin index).offset
  have open_ := (NonSymmetric.read_decodes (bound - (bin index).offset)).shift (bin index).offset
  refine (Read.Decodes.ite plain open_).congr (fun value => ?_) fun _ _ => rfl
  rw [Holds]
  split <;> rfl

theorem read_decodes (bound : Nat) : Read.Decodes (read bound) (Legal bound) (code bound) := by
  rcases Nat.eq_zero_or_pos bound with rfl | positive
  · constructor
    · intro value pos legal
      exact absurd legal.lt (Nat.not_lt_zero value)
    · intro reader value behind run
      cases run
  · have bins := Increment.read_decodes 0 (lastIndex bound)
    have decodes := bins.bind (fun index _ => place_decodes bound (lastIndex bound) index)
      (indexOf (lastIndex bound)) fun index value inside holds =>
        holds.index_eq (Nat.le_trans inside.2 (Nat.max_le.2 ⟨Nat.le_refl _, Nat.zero_le _⟩))
    rw [read, Step.lift_bind (lastBin_eq_ok positive)]
    refine decodes.congr (fun value => ?_) fun _ _ => rfl
    constructor
    · intro legal
      exact legal.2
    · intro legal
      exact ⟨⟨Nat.zero_le _, Nat.le_trans (Nat.min_le_right _ _) (Nat.le_max_left _ _)⟩, legal⟩

theorem write_appends {bound value : Nat} (legal : Legal bound value) :
    Write.Appends (write value bound) (code bound value) () := by
  have below : value < bound := legal.lt
  rw [write, Step.lift_bind (lastBin_eq_ok (by omega))]
  simp only [Nat.not_le.2 below, if_false]
  have last : indexOf (lastIndex bound) value ≤ Nat.max (lastIndex bound) 0 :=
    Nat.le_trans (Nat.min_le_right _ _) (Nat.le_max_left _ _)
  refine (Increment.write_appends (Nat.zero_le _) last).bind ?_
  have inside := legal.2
  show Write.Appends (if indexOf (lastIndex bound) value < lastIndex bound then _ else _)
    (placeCode bound _ (indexOf (lastIndex bound) value) value) ()
  rw [placeCode]
  split
  next plain =>
    rw [if_pos plain] at inside
    exact Write.bits_appends _ _ inside.1
  next open_ =>
    rw [if_neg open_] at inside
    exact NonSymmetric.write_appends inside.1 inside.2

end Av1Tiling.Subexp
