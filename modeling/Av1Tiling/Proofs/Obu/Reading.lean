import Av1Tiling.Obu.Stream
import Av1Tiling.Proofs.Bytes.Extraction
import Av1Tiling.Proofs.Obu.Writing
import Av1Tiling.Proofs.Sequence.Safety

/-!
# Reading the OBUs of a unit

Every attempt to read an OBU takes at least the first bit of its header and stays in the unit, so
reading a unit ends at its end. The OBUs that are found lie in the unit and have headers that can be
written, and what is wrong with the others is no fault.
-/

namespace Av1Tiling

namespace ObuHeader

variable {start : BitReader}

theorem readOptional_safe {α : Type} {step : Read α} {yields : α → Prop} (present : Bool)
    (safe : Read.Safe start step yields) :
    Read.Safe start (readOptional present step) fun found =>
      ∀ value, found = some value → yields value := by
  refine .ite (fun _ => safe.map _ fun value known => ?_) fun _ => .pure (by simp)
  rintro _ ⟨⟩
  exact known

theorem readExtension_safe : Read.Safe start readExtension fun extension =>
    extension.temporalId < 2 ^ 3 ∧ extension.spatialId < 2 ^ 2 := by
  refine (Field.bits_read_safe temporalIdField 3 rfl).bind fun temporalId temporal => ?_
  refine (Field.bits_read_safe spatialIdField 2 rfl).bind fun spatialId spatial => ?_
  refine (Field.bits_read_safe extensionReserved 3 rfl).bind fun _ _ => .pure ?_
  exact ⟨temporal.1, spatial.1⟩

/-- There are bits for the layers of a header that is in range. -/
theorem InRange.layersFit {header : ObuHeader} (inRange : header.InRange) : header.LayersFit := by
  have temporal := inRange.temporal
  have spatial := inRange.spatial
  constructor <;> simp only [OperatingPoint.layerBits] <;> omega

theorem readFields_safe : Read.Safe start readFields InRange := by
  refine (Field.bits_read_safe typeField 4 rfl).bind fun type narrow => ?_
  refine (Field.readFlag_safe _).bind fun extended _ => (Field.readFlag_safe _).bind fun sized _ => ?_
  refine (Field.bits_read_safe reservedBit 1 rfl).bind fun _ _ => ?_
  refine (readOptional_safe extended readExtension_safe).bind fun extension layers => ?_
  refine (readOptional_safe sized Leb128.read_safe).bind fun size _ => .pure ?_
  have code : (ObuType.ofCode type).code < 16 := by
    rw [ObuType.code_ofCode]
    exact narrow.1
  cases extension with
  | none => exact ⟨code, (by decide : 0 < 8), (by decide : 0 < 4)⟩
  | some extension =>
    have known := layers extension rfl
    exact ⟨code, known.1, known.2⟩

/-- Behind the first bit, whatever it is, a header is read without a fault. -/
theorem read_behind_first (pos : Nat) (first : Bool) (rest : Bits) :
    (∀ header behind, read ⟨pos, first :: rest⟩ = .ok header behind →
      header.InRange ∧ BitReader.Reaches ⟨pos + 1, rest⟩ behind) ∧
    ∀ cause behind, read ⟨pos, first :: rest⟩ = .error cause behind →
      ¬ cause.IsFault ∧ BitReader.Reaches ⟨pos + 1, rest⟩ behind := by
  have bit : Read.bits 1 ⟨pos, first :: rest⟩ = .ok first.toNat ⟨pos + 1, rest⟩ := by
    have yields := (Read.bits_decodes 1).yields first.toNat pos
      ⟨by decide, Bool.toNat_lt first⟩ rest
    cases first <;> exact yields
  have behind : Read.Safe ⟨pos + 1, rest⟩
      ((do forbiddenBit.check first.toNat; return first.toNat) >>= fun _ => readFields)
      InRange := by
    have checked : Read.Safe ⟨pos + 1, rest⟩
        (do forbiddenBit.check first.toNat; return first.toNat) fun _ => True :=
      (Field.check_safe forbiddenBit first.toNat).bind fun _ _ => .pure trivial
    exact checked.bind fun _ _ => readFields_safe
  have run : read ⟨pos, first :: rest⟩ =
      ((do forbiddenBit.check first.toNat; return first.toNat) >>= fun _ => readFields)
        ⟨pos + 1, rest⟩ := by
    rw [read, Field.read, bind_assoc]
    exact Step.bind_of_ok bit
  rw [run]
  exact ⟨fun _ _ => behind.of_ok (.refl _), fun _ _ => behind.of_error (.refl _)⟩

/-- The type of a header comes from a code, and its size is read last. -/
theorem read_eq_ok {reader behind : BitReader} {header : ObuHeader}
    (run : read reader = .ok header behind) :
    ∃ type sized between, header.type = ObuType.ofCode type ∧
      readOptional sized Leb128.read between = .ok header.size behind := by
  obtain ⟨_, _, -, run⟩ := Step.bind_eq_ok.1 run
  obtain ⟨type, _, -, run⟩ := Step.bind_eq_ok.1 run
  obtain ⟨_, _, -, run⟩ := Step.bind_eq_ok.1 run
  obtain ⟨sized, _, -, run⟩ := Step.bind_eq_ok.1 run
  obtain ⟨_, _, -, run⟩ := Step.bind_eq_ok.1 run
  obtain ⟨_, between, -, run⟩ := Step.bind_eq_ok.1 run
  obtain ⟨_, _, last, run⟩ := Step.bind_eq_ok.1 run
  cases run
  exact ⟨type, sized, between, rfl, last⟩

/-- A type that was read is the one that its code stands for. -/
theorem read_type {reader behind : BitReader} {header : ObuHeader}
    (run : read reader = .ok header behind) :
    ObuType.ofCode header.type.code = header.type := by
  obtain ⟨type, _, _, known, -⟩ := read_eq_ok run
  rw [known, ObuType.code_ofCode]

end ObuHeader

namespace Obu

/-- Reading goes on in the same unit and takes at least one byte. -/
structure Forward (before behind : Cursor) : Prop where
  data : behind.data = before.data
  onward : before.pos < behind.pos
  inside : behind.pos ≤ behind.data.length

/-- The header takes the bytes of which some bit was looked at, the first one in any case. -/
theorem forward_of_reaches {cursor : Cursor} {first : Bool} {rest : Bits} {reader : BitReader}
    (bits : Bits.ofBytes cursor.rest = first :: rest)
    (reaches : BitReader.Reaches ⟨1, rest⟩ reader) :
    Forward cursor (cursor.seek (cursor.pos + reader.bytePos)) := by
  have length := congrArg List.length bits
  rw [Bits.length_ofBytes, Cursor.rest, List.length_drop, List.length_cons] at length
  rcases reaches with ⟨used, advances⟩
  have total := advances.total
  have pos := advances.pos
  simp only at total pos
  refine ⟨rfl, ?_, ?_⟩ <;> simp only [Cursor.seek, BitReader.bytePos] <;> omega

theorem readHeader_forward {cursor : Cursor} (some : cursor.pos < cursor.data.length) :
    (∀ header behind, readHeader cursor = .ok header behind →
      header.InRange ∧ Forward cursor behind) ∧
    ∀ cause behind, readHeader cursor = .error cause behind →
      ¬ cause.IsFault ∧ Forward cursor behind := by
  cases bits : Bits.ofBytes cursor.rest with
  | nil =>
    have length := congrArg List.length bits
    rw [Bits.length_ofBytes, Cursor.rest, List.length_drop, List.length_nil] at length
    omega
  | cons first rest =>
    have known := ObuHeader.read_behind_first 0 first rest
    unfold readHeader Read.runOn EStateM.run BitReader.ofBytes
    rw [bits]
    cases run : ObuHeader.read ⟨0, first :: rest⟩ with
    | ok header reader =>
      have found := known.1 header reader run
      refine ⟨?_, by rintro _ _ ⟨⟩⟩
      rintro _ _ ⟨⟩
      exact ⟨found.1, forward_of_reaches bits found.2⟩
    | error cause reader =>
      have found := known.2 cause reader run
      refine ⟨by rintro _ _ ⟨⟩, ?_⟩
      rintro _ _ ⟨⟩
      exact ⟨found.1, forward_of_reaches bits found.2⟩

/-- The OBU lies in the unit, and its header can be written. -/
structure Within (obu : Obu) (unit : Bytes) : Prop where
  header : obu.header.InRange
  inside : obu.offset + obu.unitSize ≤ unit.length
  payload : obu.payload = unit.slice obu.payloadOffset obu.payload.length

/-- In front of the end of a unit the next bytes are there, or there are too few of them. -/
theorem extract_cases {cursor : Cursor} (inside : cursor.pos ≤ cursor.data.length) (size : Nat) :
    (cursor.extract size =
        .ok (cursor.data.slice cursor.pos size, cursor.seek (cursor.pos + size)) ∧
      cursor.pos + size ≤ cursor.data.length) ∨
    cursor.extract size = .error (.raised (.tooFewBytes size cursor.remaining)) := by
  rcases cursor.extract_cases size with few | fits | ⟨past, -⟩
  · exact .inr (Cursor.extract_of_few few)
  · exact .inl ⟨Cursor.extract_of_inside fits, fits⟩
  · omega

/-- The OBU is what lies between the two positions: its header as it is read from the first one, and
    the rest as its payload. -/
structure Between (obu : Obu) (cursor behind : Cursor) : Prop where
  offset : obu.offset = cursor.pos
  stop : obu.offset + obu.unitSize = behind.pos
  header : readHeader cursor = .ok obu.header (cursor.seek obu.payloadOffset)
  size : obu.header.size = some obu.payload.length
  payload : obu.payload = cursor.data.slice obu.payloadOffset obu.payload.length

/-- An OBU that was read is a header and the bytes that it promises. -/
theorem read_eq_ok {obu : Obu} {cursor behind : Cursor} (run : read cursor = .ok obu behind) :
    ∃ between size, readHeader cursor = .ok obu.header between ∧ obu.header.size = some size ∧
      between.extract size = .ok (obu.payload, behind) ∧ obu.offset = cursor.pos ∧
      obu.headerSize = between.pos - cursor.pos := by
  unfold read at run
  split at run
  next => cases run
  next found between header =>
    split at run
    next => cases run
    next size known =>
      split at run
      next => cases run
      next payload after taken =>
        cases run
        exact ⟨between, size, header, known, taken, rfl, rfl⟩

theorem read_between {obu : Obu} {cursor behind : Cursor} (some : cursor.pos < cursor.data.length)
    (run : read cursor = .ok obu behind) :
    obu.header.InRange ∧ Forward cursor behind ∧ obu.Between cursor behind := by
  obtain ⟨⟨data, pos⟩, size, header, known, taken, offset, headerSize⟩ := read_eq_ok run
  obtain ⟨inRange, forward⟩ := (readHeader_forward some).1 _ _ header
  obtain rfl : data = cursor.data := forward.data
  have onward : cursor.pos < pos := forward.onward
  have start : obu.payloadOffset = pos := by
    rw [payloadOffset, offset, headerSize]
    show cursor.pos + (pos - cursor.pos) = pos
    omega
  rcases extract_cases forward.inside size with ⟨success, fits⟩ | failure
  · obtain ⟨payload, rfl⟩ := Prod.mk.inj (Except.ok.inj (taken.symm.trans success))
    have length : obu.payload.length = size := by
      rw [payload]
      exact Bytes.length_slice fits
    refine ⟨inRange, ⟨rfl, Nat.lt_of_lt_of_le onward (Nat.le_add_right _ _), fits⟩,
      ⟨offset, ?_, ?_, ?_, ?_⟩⟩
    · show obu.offset + (obu.headerSize + obu.payload.length) = pos + size
      rw [← Nat.add_assoc, length, ← start]
      rfl
    · rw [start]
      exact header
    · rw [length]
      exact known
    · rw [start, length]
      exact payload
  · cases taken.symm.trans failure

theorem read_forward {cursor : Cursor} (some : cursor.pos < cursor.data.length) :
    (∀ obu behind, read cursor = .ok obu behind →
      obu.Within cursor.data ∧ Forward cursor behind) ∧
    ∀ cause behind, read cursor = .error cause behind →
      ¬ cause.IsFault ∧ Forward cursor behind := by
  constructor
  · intro obu behind run
    obtain ⟨inRange, forward, between⟩ := read_between some run
    have inside := forward.inside
    rw [forward.data, ← between.stop] at inside
    exact ⟨⟨inRange, inside, between.payload⟩, forward⟩
  · intro cause behind failed
    have known := readHeader_forward some
    unfold read at failed
    cases run : readHeader cursor with
    | error found between =>
      obtain ⟨noFault, forward⟩ := known.2 found between run
      simp only [run] at failed
      cases failed
      exact ⟨(not_congr Failure.isFault_map).2 noFault, forward⟩
    | ok header between =>
      obtain ⟨-, forward⟩ := known.1 header between run
      simp only [run] at failed
      cases said : header.size with
      | none =>
        simp only [said] at failed
        cases failed
        exact ⟨Failure.not_isFault_raised _, forward⟩
      | some size =>
        simp only [said] at failed
        rcases extract_cases forward.inside size with ⟨success, -⟩ | failure
        · simp only [success, reduceCtorEq] at failed
        · simp only [failure] at failed
          cases failed
          exact ⟨Failure.not_isFault_raised _, forward⟩

/-- What an attempt to read an OBU of `unit` comes to. -/
def Sound (unit : Bytes) : Except (Failure ObuError) Obu → Prop
  | .ok obu => obu.Within unit
  | .error cause => ¬ cause.IsFault

theorem readMany_ends {count : Nat} {cursor : Cursor} (inside : cursor.pos ≤ cursor.data.length)
    (enough : cursor.data.length ≤ cursor.pos + count) :
    (readMany count cursor).2.remaining = 0 ∧
      ∀ item ∈ (readMany count cursor).1, Sound cursor.data item := by
  induction count generalizing cursor with
  | zero =>
    refine ⟨?_, by rintro _ ⟨⟩⟩
    simp only [readMany, Cursor.remaining]
    omega
  | succ count ih =>
    unfold readMany
    by_cases empty : cursor.remaining = 0
    · rw [if_pos empty]
      exact ⟨empty, by rintro _ ⟨⟩⟩
    · rw [if_neg empty]
      have some : cursor.pos < cursor.data.length := by
        rw [Cursor.remaining] at empty
        omega
      have known := read_forward some
      have onward {item : Except (Failure ObuError) Obu} {behind : Cursor}
          (forward : Forward cursor behind) (sound : Sound cursor.data item) :
          (readMany count behind).2.remaining = 0 ∧
            ∀ other ∈ item :: (readMany count behind).1, Sound cursor.data other := by
        have further := forward.onward
        obtain ⟨ends, later⟩ := ih forward.inside (by rw [forward.data]; omega)
        rw [forward.data] at later
        exact ⟨ends, List.forall_mem_cons.2 ⟨sound, later⟩⟩
      cases run : read cursor with
      | ok obu behind =>
        obtain ⟨within, forward⟩ := known.1 obu behind run
        exact onward forward within
      | error cause behind =>
        obtain ⟨noFault, forward⟩ := known.2 cause behind run
        cases cause with
        | raised error => exact onward forward noFault
        | fault cause => exact absurd ⟨cause, rfl⟩ noFault

/-- The types of the OBUs of a unit are those that their codes stand for. -/
theorem read_type {cursor behind : Cursor} {obu : Obu} (run : read cursor = .ok obu behind) :
    ObuType.ofCode obu.header.type.code = obu.header.type := by
  obtain ⟨between, _, header, -⟩ := read_eq_ok run
  unfold readHeader at header
  cases fields : Read.runOn ObuHeader.read cursor.rest with
  | error cause reader => simp only [fields, reduceCtorEq] at header
  | ok own reader =>
    simp only [fields] at header
    cases header
    exact ObuHeader.read_type fields

theorem readMany_type {count : Nat} {cursor : Cursor} {obu : Obu}
    (member : .ok obu ∈ (readMany count cursor).1) :
    ObuType.ofCode obu.header.type.code = obu.header.type := by
  induction count generalizing cursor with
  | zero => cases member
  | succ count ih =>
    unfold readMany at member
    by_cases empty : cursor.remaining = 0
    · rw [if_pos empty] at member
      cases member
    · rw [if_neg empty] at member
      cases run : read cursor with
      | ok found behind =>
        simp only [run] at member
        rcases List.mem_cons.1 member with same | member
        · obtain rfl := Except.ok.inj same
          exact read_type run
        · exact ih member
      | error cause behind =>
        cases cause with
        | raised error =>
          simp only [run] at member
          rcases List.mem_cons.1 member with same | member
          · cases same
          · exact ih member
        | fault cause =>
          simp only [run] at member
          cases List.mem_singleton.1 member

/-- Reading a unit ends at its end, whatever its bytes are. -/
theorem readAll_ends (unit : Bytes) :
    (readAll unit).2.remaining = 0 ∧ ∀ item ∈ (readAll unit).1, Sound unit item :=
  readMany_ends (Nat.zero_le _) (Nat.le_add_left _ _)

end Obu

end Av1Tiling
