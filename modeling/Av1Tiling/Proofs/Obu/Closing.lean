import Av1Tiling.Proofs.Code.TrailingBit
import Av1Tiling.Proofs.Obu.Writing
import Mathlib.Data.List.Induction

/-!
# Closed payloads

The bit that closes a payload is the last one, so it is looked for from the end: in the last byte that
is not zero, in front of the zeros with which that byte ends (`search`). Whatever the content of a
payload is, behind its closing one there are only zeros, up to the end of the byte and in any bytes of
padding. So the position of the last one says where the content ends, and what stands in front of it
is the content and can be copied to wherever bits are written (`position_closes`).
-/

namespace Av1Tiling

namespace TrailingBit

/-! ## The last byte that is not zero -/

/-- A byte that is not zero ends with a one and the zeros behind it. -/
theorem ofByte_eq {byte : UInt8} (some : byte ≠ 0) :
    zerosBehind byte ≤ 7 ∧
      Bits.ofByte byte = (Bits.ofByte byte).take (7 - zerosBehind byte) ++
        true :: List.replicate (zerosBehind byte) false := by
  cases byte with
  | ofBitVec byte =>
    cases byte with
    | ofFin byte =>
      revert byte
      decide +kernel

theorem lastOne_append_byte (front : Bytes) {byte : UInt8} (some : byte ≠ 0) :
    lastOne (Bits.ofBytes (front ++ [byte])) =
      .some (8 * front.length + (7 - zerosBehind byte)) := by
  obtain ⟨few, split⟩ := ofByte_eq some
  have length : (Bits.ofBytes front ++
      (Bits.ofByte byte).take (7 - zerosBehind byte)).length =
      8 * front.length + (7 - zerosBehind byte) := by
    rw [List.length_append, Bits.length_ofBytes, List.length_take, Bits.length_ofByte]
    omega
  rw [Bits.ofBytes_append, Bits.ofBytes_singleton, split, ← List.append_assoc, lastOne_append,
    length]

theorem position_eq_search (payload : Bytes) : position payload = search payload := by
  induction payload using List.reverseRecOn with
  | nil => rfl
  | append_singleton front byte ih =>
    have reversed : (front ++ [byte]).zipIdx.reverse =
        (byte, front.length) :: front.zipIdx.reverse := by
      simp [List.zipIdx_append]
    by_cases zero : byte = 0
    · have skipped : search (front ++ [byte]) = search front := by
        simp only [search, reversed]
        rw [List.find?_cons_of_neg (by simp [zero])]
      have bits : Bits.ofBytes (front ++ [byte]) =
          Bits.ofBytes front ++ List.replicate 8 false := by
        rw [Bits.ofBytes_append, Bits.ofBytes_singleton, zero]
        rfl
      rw [skipped, ← ih, position, bits, lastOne_append_zeros, position]
    · have found : search (front ++ [byte]) =
          .ok (8 * front.length + (7 - zerosBehind byte)) := by
        simp only [search, reversed]
        rw [List.find?_cons_of_pos (by simp [zero])]
      rw [found, position_eq_ok, lastOne_append_byte front zero]

/-- No bit closes zeros. -/
theorem position_eq_error_iff {payload : Bytes} :
    position payload = .error .noTrailingBit ↔ ∀ byte ∈ payload, byte = 0 := by
  have zeros : (payload.zipIdx.reverse.find? fun entry => entry.1 != 0) = none ↔
      ∀ byte ∈ payload, byte = 0 := by
    constructor
    · intro none byte found
      obtain ⟨place, inside, same⟩ := List.getElem_of_mem found
      have entry : (byte, place) ∈ payload.zipIdx.reverse := by
        simp [List.mem_zipIdx_iff_getElem?, ← same]
      simpa using List.find?_eq_none.1 none (byte, place) entry
    · intro zeros
      apply List.find?_eq_none.2
      intro entry found
      have member := List.fst_mem_of_mem_zipIdx (List.mem_reverse.1 found)
      simp [zeros entry.1 member]
  rw [position_eq_search, search, ← zeros]
  split
  next byte place found => simp [found]
  next none => simp [none]

end TrailingBit

namespace Emit

/-- A payload that is closed, with zero bytes behind it. -/
def padded (payload : Write Unit) (zeros : Nat) : Emit Unit := do
  payload
  trailingBits
  raw (List.replicate zeros 0)

/-- The bytes of some content that is closed. -/
theorem exists_closed (content : Bits) :
    ∃ closed : Bytes, Bits.ofBytes closed = content ++ closing content.length ∧
      closed.length = content.length / 8 + 1 := by
  obtain ⟨whole, few⟩ := length_closing content.length
  rw [← List.length_append] at whole
  obtain ⟨closed, bits⟩ := Bits.exists_ofBytes whole
  have length := congrArg List.length bits
  have some : 1 ≤ (closing content.length).length := by simp [closing]
  rw [Bits.length_ofBytes, List.length_append] at length
  exact ⟨closed, bits, by omega⟩

/-- Bytes of zeros do not move the bit that closes a payload. -/
theorem position_padded {content : Bits} {closed : Bytes}
    (bits : Bits.ofBytes closed = content ++ closing content.length) (zeros : Nat) :
    TrailingBit.position (closed ++ List.replicate zeros 0) = .ok content.length := by
  rw [TrailingBit.position_eq_ok, Bits.ofBytes_append, Bits.ofBytes_zeros,
    TrailingBit.lastOne_append_zeros, bits]
  exact TrailingBit.lastOne_append content _

theorem padded_puts {payload : Write Unit} {content : Bits} {closed : Bytes}
    (appends : Write.Appends payload content ())
    (bits : Bits.ofBytes closed = content ++ closing content.length) (zeros : Nat) :
    Write.Puts 0 (padded payload zeros) (closed ++ List.replicate zeros 0) () := by
  have behind : Write.Puts 0 (raw (List.replicate zeros 0)) (List.replicate zeros 0) () :=
    (Write.bytes_appends _).emit.puts 0
  have steps : padded payload zeros =
      (Emit.closed true payload >>= fun _ => raw (List.replicate zeros 0)) := by
    simp [padded, Emit.closed]
  rw [steps]
  exact (closed_puts appends.emit bits).bind behind

end Emit

/-- Any content that is written between two bytes, closed, and followed by bytes of zeros makes up a
    payload in which it ends at the position of the closing bit, so that copying the bits in front of
    that position writes the content again. The position, which is looked for from the last byte on,
    is missing just in payloads of zeros. In all others it is that of a one with only zeros behind
    it. -/
theorem TrailingBit.position_closes :
    (∀ (content : Bits) (zeros : Nat) (writer : BitWriter), writer.pending = [] →
      writer.buffer.size + (content.length / 8 + 1 + zeros) ≤ writer.buffer.capacity →
      ∃ payload behind,
        Emit.padded (content.forM Write.bit) zeros writer = .ok () behind ∧
          writer.Takes payload behind ∧ position payload = .ok content.length ∧
          Write.Appends (Write.copy payload 0 content.length) content ()) ∧
      ∀ payload : Bytes, position payload = search payload ∧
        (position payload = .error .noTrailingBit ↔ ∀ byte ∈ payload, byte = 0) ∧
        (position payload = .error .noTrailingBit ∨
          ∃ stop, position payload = .ok stop ∧ (Bits.ofBytes payload)[stop]? = some true ∧
            ∀ bit ∈ (Bits.ofBytes payload).drop (stop + 1), bit = false) := by
  constructor
  · intro content zeros writer aligned fits
    obtain ⟨closed, bits, length⟩ := Emit.exists_closed content
    have puts := Emit.padded_puts (Write.each_bit_appends content) bits zeros
    obtain ⟨behind, run, takes⟩ := puts writer aligned (by
      rw [List.length_append, List.length_replicate, length]
      exact fits)
    have found := Emit.position_padded bits zeros
    refine ⟨_, behind, run, takes, found, ?_⟩
    have front : (⟨0, content.length⟩ : BitSpan).of (closed ++ List.replicate zeros 0) =
        content := by
      rw [BitSpan.of, BitSpan.length, List.drop_zero, Nat.sub_zero, Bits.ofBytes_append, bits,
        List.append_assoc, List.take_left]
    have copied := Write.copy_appends (Nat.zero_le content.length)
      (Nat.le_of_lt (position_lt found))
    rwa [front] at copied
  · intro payload
    refine ⟨position_eq_search payload, position_eq_error_iff, ?_⟩
    rcases position_cases payload with none | ⟨stop, found⟩
    · exact .inl none
    · exact .inr ⟨stop, found, position_last found⟩

/-- Ten bits of content that end in zeros. -/
def Bits.tenWithZeros : Bits :=
  [true, false, true, false, false, false, false, false, false, false]

/-- The content is followed by two bytes of padding, where just these fit. -/
theorem TrailingBit.position_closes_in_zeros :
    (BitWriter.empty 4).pending = [] ∧
      (BitWriter.empty 4).buffer.size + (Bits.tenWithZeros.length / 8 + 1 + 2) ≤
        (BitWriter.empty 4).buffer.capacity ∧
      (∃ behind, Emit.padded (Bits.tenWithZeros.forM Write.bit) 2 (.empty 4) = .ok () behind ∧
        behind.contents = [0xA0, 0x20, 0x00, 0x00]) ∧
      position [0xA0, 0x20, 0x00, 0x00] = .ok 10 ∧
      Write.Appends (Write.copy [0xA0, 0x20, 0x00, 0x00] 0 10) Bits.tenWithZeros () := by
  have fits : (BitWriter.empty 4).buffer.size + (Bits.tenWithZeros.length / 8 + 1 + 2) ≤
      (BitWriter.empty 4).buffer.capacity := by
    decide
  obtain ⟨payload, behind, run, takes, found, copied⟩ :=
    position_closes.1 Bits.tenWithZeros 2 (.empty 4) rfl fits
  obtain ⟨_, same, known, contents⟩ :=
    (by decide +kernel : Step.Succeeds (fun _ behind => behind.contents = [0xA0, 0x20, 0x00, 0x00])
      (Emit.padded (Bits.tenWithZeros.forM Write.bit) 2 (.empty 4))).eq_ok
  obtain rfl : same = behind := (EStateM.Result.ok.inj (known.symm.trans run)).2
  obtain rfl : payload = [0xA0, 0x20, 0x00, 0x00] := takes.contents.symm.trans contents
  exact ⟨rfl, fits, ⟨same, run, contents⟩, found, copied⟩

end Av1Tiling
