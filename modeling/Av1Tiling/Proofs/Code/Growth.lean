import Av1Tiling.Field
import Av1Tiling.Proofs.Bits.Growth
import Av1Tiling.Proofs.Code.LittleEndian
import Av1Tiling.Proofs.Code.Subexp
import Av1Tiling.Proofs.Code.Uvlc

/-!
# What codes and fields have added

Every code only adds bits, and it is known which: a value that was written was one that has a code,
and its code was added.
-/

namespace Av1Tiling

open Write

theorem LittleEndian.write_grows (value size : Nat) : Grows (write value size) fun more =>
    (size ≤ maxBytes ∧ value < 256 ^ size) ∧ more = code size value := by
  refine .ite (fun _ => .throw_bind _ _) fun fits => ?_
  have each : Grows ((Bytes.ofNatLE size value).forM fun byte => bits byte.toNat 8)
      (· = code size value) := Grows.forM _ fun byte => bits_grows byte.toNat 8
  exact each.mono fun _ same => ⟨by omega, same⟩

theorem Leb128.write_grows (value : Nat) :
    Grows (write value) (· = Bits.ofBytes (encode value)) := by
  have each : Grows ((encode value).forM fun byte => bytes [byte])
      (· = (encode value).flatMap fun byte => Bits.ofBytes [byte]) :=
    Grows.forM _ fun byte => bytes_grows [byte]
  simp only [Bits.ofBytes_singleton] at each
  refine (each.bind fun _ _ _ _ => Grows.pure _).mono ?_
  rintro _ ⟨_, _, rfl, rfl, rfl⟩
  exact List.append_nil _

theorem Uvlc.write_grows (value min max : Nat) : Grows (write value min max) fun more =>
    (min ≤ value ∧ value ≤ max) ∧ more = code value := by
  refine .stays_bind (fun _ _ _ run => (Step.lift_eq_ok.1 run).2) fun _ _ _ run => ?_
  have inside := check_eq_ok.1 (Step.lift_eq_ok.1 run).1
  rw [code]
  refine .ite (fun greatest => ?_) fun below => ?_
  · refine ((bits_grows 0 32).bind fun _ _ _ _ => bit_grows true).mono ?_
    rintro _ ⟨_, _, rfl, rfl, rfl⟩
    rw [if_pos greatest, Bits.ofNat_zero]
    exact ⟨inside, rfl⟩
  · refine ((bits_grows 0 _).bind fun _ _ _ _ => bits_grows _ _).mono ?_
    rintro _ ⟨_, _, rfl, rfl, rfl⟩
    rw [if_neg below, Bits.ofNat_zero]
    exact ⟨inside, rfl⟩

theorem NonSymmetric.write_grows (value bound : Nat) : Grows (write value bound) fun more =>
    (value < bound ∧ floorLog2 bound ≤ 64) ∧ more = code bound value := by
  rcases Nat.eq_zero_or_pos bound with rfl | positive
  · exact .throw _
  rw [write, Step.lift_bind (shape_eq_ok positive)]
  refine .ite (fun _ => .throw_bind _ _) fun outside => ?_
  have below : value < bound := Nat.lt_of_not_le outside
  rw [code]
  refine .ite (fun short => ?_) fun long => ?_
  · refine (bits_grows_narrow _ _).mono ?_
    rintro _ ⟨narrow, rfl⟩
    exact ⟨⟨below, narrow⟩, (if_pos short).symm⟩
  · refine ((bits_grows_narrow _ _).bind fun _ _ _ _ => bit_grows _).mono ?_
    rintro _ ⟨_, _, ⟨narrow, rfl⟩, rfl, rfl⟩
    exact ⟨⟨below, narrow⟩, (if_neg long).symm⟩

theorem Increment.write_grows (value min max : Nat) : Grows (write value min max) fun more =>
    (min ≤ value ∧ value ≤ Nat.max max min) ∧ more = code min max value := by
  refine .ite (fun _ => .throw_bind _ _) fun outside => ?_
  have inside : min ≤ value ∧ value ≤ Nat.max max min := by omega
  have last : Grows (if value < max then bit false else pure ())
      (· = if value < max then [false] else []) := by
    split
    · exact bit_grows false
    · exact .pure ()
  refine ((fill_grows true (value - min)).bind fun _ _ _ _ => last).mono ?_
  rintro _ ⟨_, _, rfl, rfl, rfl⟩
  exact ⟨inside, rfl⟩

theorem Subexp.write_grows (value bound : Nat) : Grows (write value bound) fun more =>
    Legal bound value ∧ more = code bound value := by
  rcases Nat.eq_zero_or_pos bound with rfl | positive
  · exact .throw _
  obtain ⟨start, stop⟩ := bin_indexOf (lastIndex bound) value
  rw [write, Step.lift_bind (lastBin_eq_ok positive)]
  refine .ite (fun _ => .throw_bind _ _) fun _ => ?_
  have place : Grows (if indexOf (lastIndex bound) value < lastIndex bound then
        bits (value - (bin (indexOf (lastIndex bound) value)).offset)
          (bin (indexOf (lastIndex bound) value)).width
      else NonSymmetric.write (value - (bin (indexOf (lastIndex bound) value)).offset)
        (bound - (bin (indexOf (lastIndex bound) value)).offset))
      fun more => Legal bound value ∧
        more = placeCode bound (lastIndex bound) (indexOf (lastIndex bound) value) value := by
    rw [Legal, Holds, placeCode]
    split
    next plain => exact (bits_grows_narrow _ _).mono fun _ known =>
      ⟨⟨start, known.1, stop plain⟩, known.2⟩
    next => exact (NonSymmetric.write_grows _ _).mono fun _ known => ⟨⟨start, known.1⟩, known.2⟩
  refine ((Increment.write_grows _ _ _).bind fun _ _ _ _ => place).mono ?_
  rintro _ ⟨_, _, ⟨-, rfl⟩, ⟨legal, rfl⟩, rfl⟩
  exact ⟨legal, rfl⟩

namespace Field

theorem writeCode_grows (field : Field) (value : Nat) : Grows (field.writeCode value) Any := by
  rw [writeCode]
  cases field.coding with
  | bits count => exact (bits_grows _ _).any
  | littleEndian size => exact (LittleEndian.write_grows _ _).any
  | leb128 => exact (Leb128.write_grows _).bind_any fun _ => .pure _
  | uvlc => exact (Uvlc.write_grows _ _ _).any
  | nonSymmetric bound => exact (NonSymmetric.write_grows _ _).any
  | increment => exact (Increment.write_grows _ _ _).any
  | subexp bound => exact (Subexp.write_grows _ _).any

theorem write_grows (field : Field) (value : Nat) : Grows (field.write value) Any :=
  .bind_any (.stays fun _ _ _ run => (Step.lift_eq_ok.1 run).2) fun _ => field.writeCode_grows value

/-- A flag that was written is the bit. -/
theorem writeFlag_grows (name : String) (value : Bool) :
    Grows ((flag name).writeFlag value) (· = [value]) := by
  refine .stays_bind (fun _ _ _ run => (Step.lift_eq_ok.1 run).2) fun _ _ _ _ => ?_
  refine (bits_grows value.toNat 1).mono ?_
  rintro _ rfl
  cases value <;> rfl

end Field

end Av1Tiling
