import Av1Tiling.Proofs.Bits.Numbers

/-!
# Where the bits run out

A number needs so many bits. Where there are fewer they are all used up, and the error says where the
bits ended. That is so whether the reader takes whole bytes or goes bit by bit, so that there is no
difference between the two (`bits_eq_singly`). Bytes are read up to the first for which the bits are
too few, and these are used up as well.
-/

namespace Av1Tiling

/-- The number written by the next `count` bits, which are read one by one. -/
def singly {ε σ : Type} (bit : EStateM ε σ Bool) (count : Nat) : EStateM ε σ Nat :=
  Bits.toNat <$> (List.replicate count ()).mapM fun _ => bit

namespace Read

theorem bit_cons (pos : Nat) (first : Bool) (rest : Bits) :
    bit ⟨pos, first :: rest⟩ = .ok first ⟨pos + 1, rest⟩ := rfl

theorem advances_cons (pos : Nat) (first : Bool) (rest : Bits) :
    BitReader.Advances ⟨pos, first :: rest⟩ [first] ⟨pos + 1, rest⟩ := ⟨rfl, rfl⟩

/-- Single bits are read up to the end, and all of them are used up where they are too few. -/
theorem each_bit_eq (count : Nat) (reader : BitReader) :
    ((List.replicate count ()).mapM fun _ => bit) reader =
      if count ≤ reader.rest.length then
        .ok (reader.rest.take count) ⟨reader.pos + count, reader.rest.drop count⟩
      else
        .error (.raised (.exhausted reader.atEnd.pos)) reader.atEnd := by
  induction count generalizing reader with
  | zero =>
    rw [if_pos (Nat.zero_le _)]
    rfl
  | succ count ih =>
    obtain ⟨pos, _ | ⟨first, rest⟩⟩ := reader
    · rw [List.replicate_succ, List.mapM_cons]
      exact (if_neg (Nat.not_succ_le_zero count)).symm
    · rw [List.replicate_succ, List.mapM_cons, Step.bind_of_ok (bit_cons pos first rest)]
      simp only [List.length_cons, Nat.add_le_add_iff_right]
      by_cases enough : count ≤ rest.length
      · rw [if_pos enough, Step.bind_of_ok ((ih _).trans (if_pos enough)), Nat.add_right_comm]
        rfl
      · rw [if_neg enough, Step.bind_of_error ((ih _).trans (if_neg enough)),
          (advances_cons pos first rest).atEnd_eq]

theorem octet_of_few {reader : BitReader} (few : reader.rest.length < 8) :
    octet reader = .error (.raised (.exhausted reader.atEnd.pos)) reader.atEnd := by
  unfold octet
  split
  next same =>
    rw [same] at few
    simp only [List.length_cons] at few
    omega
  next => rfl

/-- In whole bytes and bits no less is used up than bit by bit. -/
theorem extend_of_few {value count : Nat} {reader : BitReader} (few : reader.rest.length < count) :
    extend value count reader = .error (.raised (.exhausted reader.atEnd.pos)) reader.atEnd := by
  induction count using Nat.strongRecOn generalizing value reader with
  | ind count ih =>
    obtain ⟨pos, bits⟩ := reader
    rw [extend, if_neg (by omega)]
    split
    next whole =>
      by_cases none : bits.length < 8
      · exact Step.bind_of_error (octet_of_few none)
      · obtain ⟨used, rest, rfl, eight⟩ := Bits.exists_octet (Nat.le_of_not_lt none)
        have onward : BitReader.Advances ⟨pos, used ++ rest⟩ used ⟨pos + used.length, rest⟩ :=
          ⟨rfl, rfl⟩
        have left : rest.length < count - 8 := by
          simp only [List.length_append] at few
          omega
        rw [Step.bind_of_ok (octet_yields pos eight rest), ih (count - 8) (by omega) left,
          onward.atEnd_eq]
    next =>
      cases bits with
      | nil => rfl
      | cons first rest =>
        have left : rest.length < count - 1 := by
          simp only [List.length_cons] at few
          omega
        rw [Step.bind_of_ok (bit_cons pos first rest), ih (count - 1) (by omega) left,
          (advances_cons pos first rest).atEnd_eq]

/-- A number is read where there are bits enough, and otherwise all of them are used up. -/
theorem bits_eq {count : Nat} (narrow : count ≤ 64) (reader : BitReader) :
    bits count reader =
      if count ≤ reader.rest.length then
        .ok (Bits.toNat (reader.rest.take count)) ⟨reader.pos + count, reader.rest.drop count⟩
      else
        .error (.raised (.exhausted reader.atEnd.pos)) reader.atEnd := by
  rw [bits, if_neg (Nat.not_lt.2 narrow)]
  by_cases enough : count ≤ reader.rest.length
  · have length : (reader.rest.take count).length = count := List.length_take_of_le enough
    have yields := extend_yields 0 count reader.pos length (reader.rest.drop count)
    rw [List.take_append_drop, length, Nat.zero_mul, Nat.zero_add] at yields
    rw [if_pos enough]
    exact yields
  · rw [if_neg enough]
    exact extend_of_few (Nat.lt_of_not_le enough)

/-- It makes no difference whether a number is read in whole bytes or bit by bit. -/
theorem bits_eq_singly {count : Nat} (narrow : count ≤ 64) : bits count = singly bit count := by
  funext reader
  simp only [bits_eq narrow, singly, Functor.map, EStateM.map, each_bit_eq]
  split
  · rfl
  · rfl

/-- Bytes are read one by one. -/
theorem bytes_octet (count pos : Nat) {used : Bits} (eight : used.length = 8) (rest : Bits) :
    bytes (count + 1) ⟨pos, used ++ rest⟩ =
      (bytes count >>= fun found => pure (Bits.toByte used :: found)) ⟨pos + 8, rest⟩ := by
  have stop (length : Nat) : pos + 8 * (length + 1) = pos + 8 + 8 * length := by omega
  simp only [bytes, takeBytes_succ count eight, bind, EStateM.bind, List.length_cons, stop,
    Nat.add_lt_add_iff_right]
  rfl

/-- The read ends with the first byte for which the bits are too few. -/
theorem bytes_of_few (count : Nat) {reader : BitReader} (few : reader.rest.length < 8) :
    bytes (count + 1) reader = .ok [] reader.atEnd := by
  have none : takeBytes (count + 1) reader.rest = ([], reader.rest) := by
    unfold takeBytes
    split
    next same =>
      rw [same] at few
      simp only [List.length_cons] at few
      omega
    next => rfl
  simp only [bytes, none, List.length_nil, Nat.mul_zero, Nat.add_zero, Nat.zero_lt_succ, if_true]

/-- Bytes are read as far as the bits go. Where the read comes up short, the bits that are too few for
    a byte are used up with the others. -/
theorem bytes_eq (count : Nat) (reader : BitReader) :
    ∃ found, found.length = min count (reader.rest.length / 8) ∧
      Bits.ofBytes found = reader.rest.take (8 * found.length) ∧
      bytes count reader = .ok found
        (if found.length < count then reader.atEnd
          else ⟨reader.pos + 8 * found.length, reader.rest.drop (8 * found.length)⟩) := by
  induction count generalizing reader with
  | zero => exact ⟨[], (Nat.zero_min _).symm, rfl, rfl⟩
  | succ count ih =>
    obtain ⟨pos, bits⟩ := reader
    by_cases enough : 8 ≤ bits.length
    · obtain ⟨used, rest, rfl, eight⟩ := Bits.exists_octet enough
      obtain ⟨found, length, same, run⟩ := ih ⟨pos + 8, rest⟩
      have onward : BitReader.Advances ⟨pos, used ++ rest⟩ used ⟨pos + 8, rest⟩ :=
        ⟨rfl, by rw [eight]⟩
      have next : 8 * (found.length + 1) = used.length + 8 * found.length := by omega
      refine ⟨Bits.toByte used :: found, ?_, ?_, ?_⟩
      · rw [List.length_cons, length, List.length_append]
        simp only
        omega
      · rw [List.length_cons, next, Bits.ofBytes_cons, Bits.ofByte_toByte eight, same,
          List.take_length_add_append]
      · rw [bytes_octet count pos eight, Step.bind_of_ok run, onward.atEnd_eq, List.length_cons,
          next, List.drop_length_add_append]
        simp only [eight, Nat.add_assoc, Nat.add_lt_add_iff_right]
        rfl
    · have few : bits.length < 8 := Nat.lt_of_not_le enough
      have none : 0 = min (count + 1) (bits.length / 8) := by omega
      exact ⟨[], none, rfl, bytes_of_few count few⟩

theorem takeBytes_eq_take (count : Nat) (data : Bytes) :
    takeBytes count (Bits.ofBytes data) = (data.take count, Bits.ofBytes (data.drop count)) := by
  induction count generalizing data with
  | zero => rw [takeBytes, List.take_zero, List.drop_zero]; simp
  | succ count ih =>
    cases data with
    | nil => rfl
    | cons byte rest =>
      rw [Bits.ofBytes_cons, List.take_succ_cons, List.drop_succ_cons,
        takeBytes_succ count (Bits.length_ofByte byte), ih, Bits.toByte_ofByte]

end Read

end Av1Tiling
