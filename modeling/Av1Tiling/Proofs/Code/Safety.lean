import Av1Tiling.Proofs.Bits.Safety
import Av1Tiling.Proofs.Field

/-!
# Codes and fields without faults

Whatever bits a code is read from, its computations stay in range, and a field yields a legal value
or says which one is not.
-/

namespace Av1Tiling

variable {start : BitReader}

theorem Increment.read_safe (min max : Nat) :
    Read.Safe start (Increment.read min max) fun _ => True := by
  fun_induction Increment.read min max with
  | case1 min below ih =>
    exact Read.bit_safe.bind fun more _ => .ite (fun _ => ih) fun _ => .pure trivial
  | case2 min reached => exact .pure trivial

theorem NonSymmetric.read_safe (bound : Nat) :
    Read.Safe start (NonSymmetric.read bound) fun _ => True := by
  have shape : Read.Safe start (liftM (NonSymmetric.shape bound)) fun _ => True :=
    .liftStream fun _ _ => trivial
  refine shape.bind fun code _ => (Read.bits_safe code.short).bind fun value _ => ?_
  exact .ite (fun _ => .pure trivial) fun _ => Read.bit_safe.bind fun _ _ => .pure trivial

theorem Leb128.readGroups_safe (count : Nat) :
    Read.Safe start (Leb128.readGroups count) fun _ => True := by
  induction count with
  | zero => exact .pure trivial
  | succ count ih =>
    refine (Read.bits_safe 8).bind fun byte _ => ?_
    exact .ite (fun _ => .pure trivial) fun _ => ih.bind fun _ _ => .pure trivial

theorem Leb128.read_safe : Read.Safe start Leb128.read fun _ => True := by
  refine (Leb128.readGroups_safe _).bind fun value _ => ?_
  refine .ite (fun _ => .throw_bind ?_) fun _ => .pure trivial
  exact Failure.not_isFault_raised _

namespace Uvlc

theorem readZeros_safe : Read.Safe start readZeros fun _ => True := by
  refine Read.safe_of_reaches fun reader => ?_
  unfold readZeros
  by_cases ends : (reader.rest.takeWhile (!·)).length = reader.rest.length
  · rw [if_pos ends]
    exact ⟨Failure.not_isFault_raised _, .atEnd reader⟩
  · rw [if_neg ends]
    have short : (reader.rest.takeWhile (!·)).length < reader.rest.length :=
      Nat.lt_of_le_of_ne (List.takeWhile_prefix _).length_le ends
    refine ⟨trivial, reader.rest.take ((reader.rest.takeWhile (!·)).length + 1), ?_, ?_⟩
    · exact (List.take_append_drop _ _).symm
    · rw [List.length_take, Nat.min_eq_left short, Nat.add_assoc]

theorem check_safe (value min max : Nat) :
    Read.Safe start (liftM (check value min max)) fun _ => True :=
  .liftStream fun _ _ => trivial

theorem read_safe (min max : Nat) : Read.Safe start (read min max) fun _ => True := by
  have last : ∀ value, Read.Safe start (do check value min max; return value) fun _ => True :=
    fun value => (check_safe value min max).bind fun _ _ => .pure trivial
  have digits : ∀ zeros, Read.Safe start ((· + 2 ^ zeros - 1) <$> Read.bits zeros) fun _ => True :=
    fun zeros => (Read.bits_safe zeros).map _ fun _ _ => trivial
  refine readZeros_safe.bind fun zeros _ => ?_
  exact .ite (fun _ => last maxValue) fun _ => (digits zeros).bind fun value _ => last value

end Uvlc

namespace Field

theorem check_safe (field : Field) (value : Nat) :
    Read.Safe start (liftM (field.check value)) fun _ =>
      field.min ≤ value ∧ value ≤ field.max :=
  .liftStream fun _ success => check_eq_ok.1 success

/-- A field that is read has a legal value. -/
theorem read_safe {field : Field} {yields : Nat → Prop}
    (safe : Read.Safe start field.readCode yields) :
    Read.Safe start field.read fun value =>
      yields value ∧ field.min ≤ value ∧ value ≤ field.max := by
  refine safe.bind fun value known => ?_
  exact (check_safe field value).bind fun _ inside => .pure ⟨known, inside⟩

/-- A number of bits, of which a range may be legal. -/
theorem bits_read_safe (field : Field) (count : Nat) (coding : field.coding = .bits count) :
    Read.Safe start field.read fun value =>
      value < 2 ^ count ∧ field.min ≤ value ∧ value ≤ field.max := by
  apply read_safe
  rw [readCode, coding]
  exact Read.bits_safe count

theorem readFlag_safe (name : String) :
    Read.Safe start (flag name).readFlag fun _ => True :=
  (bits_read_safe (flag name) 1 rfl).bind fun _ _ => .pure trivial

end Field

end Av1Tiling
