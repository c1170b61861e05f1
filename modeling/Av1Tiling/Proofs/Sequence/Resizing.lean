import Av1Tiling.Proofs.Bits.Moving
import Av1Tiling.Proofs.Obu.Emit
import Av1Tiling.Proofs.Sequence.Rewriting

/-!
# Resized sequence headers

Nothing in a sequence header depends on its frame dimensions, and what stands behind them is read
alike at any place. So a header that is written with other dimensions is read as the same header
with these dimensions.
-/

namespace Av1Tiling

open Read (bit_movable bits_movable bitIf_movable word_movable)

/-! ## The parts of a header -/

theorem TimingInfo.read_movable : Read.Movable read :=
  word_movable.bind fun _ => word_movable.bind fun _ => bit_movable.bind fun equalInterval =>
    have ticks : Read.Movable (readTicks equalInterval) :=
      .ite ((Uvlc.read_movable _ _).map _) (.pure _)
    ticks.bind fun _ => .pure _

theorem DecoderModel.read_movable : Read.Movable read :=
  (bits_movable 5).bind fun _ => word_movable.bind fun _ => (bits_movable 5).bind fun _ =>
    (bits_movable 5).bind fun _ => .pure _

namespace OperatingPoint

theorem readParameters_movable (decoderModel : Option DecoderModel) :
    Read.Movable (readParameters decoderModel) := by
  cases decoderModel with
  | none => exact .pure _
  | some model =>
    have parameters : Read.Movable (OperatingParameters.read model.bufferDelayLength) :=
      (bits_movable _).bind fun _ => (bits_movable _).bind fun _ => bit_movable.bind fun _ =>
        .pure _
    exact bit_movable.bind fun _ => .ite (parameters.map _) (.pure _)

theorem read_movable (decoderModel : Option DecoderModel) (delayPresent : Bool) :
    Read.Movable (read decoderModel delayPresent) := by
  have delay (present : Bool) : Read.Movable (readDelay present) :=
    .ite ((bits_movable 4).map _) (.pure _)
  exact (bits_movable 12).bind fun _ => (bits_movable 5).bind fun _ => (bitIf_movable _).bind
    fun _ => (readParameters_movable decoderModel).bind fun _ => (bitIf_movable _).bind fun _ =>
      (delay _).bind fun _ => .pure _

theorem readMany_movable (decoderModel : Option DecoderModel) (delayPresent : Bool) (count : Nat) :
    Read.Movable (readMany decoderModel delayPresent count) := by
  induction count with
  | zero => exact .pure _
  | succ count ih => exact (read_movable _ _).bind fun _ => ih.bind fun _ => .pure _

end OperatingPoint

theorem InterTools.read_movable : Read.Movable read := by
  have choice : Read.Movable readChoice :=
    bit_movable.bind fun _ => .ite (.pure _) (bits_movable 1)
  have integerMv (screenContentTools : Nat) : Read.Movable (readIntegerMv screenContentTools) :=
    .ite choice (.pure _)
  have hintBits (present : Bool) : Read.Movable (readOrderHintBits present) :=
    .ite ((bits_movable 3).map _) (.pure _)
  exact bit_movable.bind fun _ => bit_movable.bind fun _ => bit_movable.bind fun _ =>
    bit_movable.bind fun _ => bit_movable.bind fun _ => (bitIf_movable _).bind fun _ =>
      (bitIf_movable _).bind fun _ => choice.bind fun _ => (integerMv _).bind fun _ =>
        (hintBits _).bind fun _ => .pure _

theorem ColorConfig.read_movable (profile : Nat) : Read.Movable (read profile) := by
  have depth : Read.Movable (readBitDepth profile) :=
    bit_movable.bind fun _ => .ite ((bitIf_movable _).bind fun _ => .pure _) (.pure _)
  have description : Read.Movable readDescription :=
    bit_movable.bind fun _ => .ite ((bits_movable 8).bind fun _ => (bits_movable 8).bind fun _ =>
      (bits_movable 8).bind fun _ => .pure _) (.pure _)
  have subsampling (bitDepth : Nat) : Read.Movable (readSubsampling profile bitDepth) :=
    .ite (.pure _) (.ite (.pure _) (.ite (bit_movable.bind fun _ => (bitIf_movable _).bind fun _ =>
      .pure _) (.pure _)))
  have position (subsampled : Bool) : Read.Movable (readSamplePosition subsampled) :=
    .ite (bits_movable 2) (.pure _)
  exact depth.bind fun _ => (bitIf_movable _).bind fun _ => description.bind fun _ =>
    .ite (bit_movable.bind fun _ => .pure _) (.ite (bit_movable.bind fun _ => .pure _)
      (bit_movable.bind fun _ => (subsampling _).bind fun _ => (position _).bind fun _ =>
        bit_movable.bind fun _ => .pure _))

namespace SequenceHeader

theorem readOperation_movable (reduced : Bool) : Read.Movable (readOperation reduced) := by
  have clocks : Read.Movable readClocks :=
    bit_movable.bind fun _ => .ite (TimingInfo.read_movable.bind fun _ => bit_movable.bind fun _ =>
      .ite (DecoderModel.read_movable.bind fun _ => .pure _) (.pure _)) (.pure _)
  exact .ite ((bits_movable 5).bind fun _ => .pure _) (clocks.bind fun _ => bit_movable.bind fun _ =>
    (bits_movable 5).bind fun _ => (OperatingPoint.readMany_movable _ _ _).bind fun _ => .pure _)

/-! ## In front of the frame dimensions and behind them -/

/-- What stands in front of the frame dimensions. -/
structure Opening where
  profile : Nat
  stillPicture : Bool
  reduced : Bool
  operation : Option TimingInfo × Option DecoderModel × List OperatingPoint

/-- Reads what stands in front of the frame dimensions. -/
def readOpening : Read Opening := do
  let profile ← Read.bits 3
  let stillPicture ← Read.bit
  let reduced ← Read.bit
  checkStill stillPicture reduced
  let operation ← readOperation reduced
  return { profile, stillPicture, reduced, operation }

/-- Reads what stands behind the frame dimensions. -/
def readBehind (opening : Opening) (header : ObuHeader) (dimensions : FrameDimensions) :
    Read SequenceHeader := do
  let frameIds ← readFrameIds opening.reduced
  let largeSuperblocks ← Read.bit
  let filterIntra ← Read.bit
  let intraEdgeFilter ← Read.bit
  let inter ← readInter opening.reduced
  let superres ← Read.bit
  let cdef ← Read.bit
  let restoration ← Read.bit
  let color ← ColorConfig.read opening.profile
  let filmGrain ← Read.bit
  let (timing, decoderModel, operatingPoints) := opening.operation
  return {
    header, profile := opening.profile, stillPicture := opening.stillPicture
    reducedStillPicture := opening.reduced, timing, decoderModel, operatingPoints
    dimensions, frameIds, largeSuperblocks, filterIntra, intraEdgeFilter, inter, superres, cdef
    restoration, color, filmGrain }

theorem read_eq (header : ObuHeader) :
    read header = readOpening >>= fun opening => FrameDimensions.read >>= fun dimensions =>
      readBehind opening header dimensions := by
  simp only [readOpening, bind_assoc, pure_bind]
  rfl

theorem readOpening_movable : Read.Movable readOpening :=
  (bits_movable 3).bind fun _ => bit_movable.bind fun _ => bit_movable.bind fun _ =>
    (Read.Movable.lift _).bind fun _ => (readOperation_movable _).bind fun _ => .pure _

theorem readBehind_movable (opening : Opening) (header : ObuHeader)
    (dimensions : FrameDimensions) : Read.Movable (readBehind opening header dimensions) := by
  have ids (reduced : Bool) : Read.Movable (readFrameIds reduced) :=
    (bitIf_movable _).bind fun _ => .ite (((bits_movable 4).bind fun _ => (bits_movable 3).bind
      fun _ => .pure _).map _) (.pure _)
  have inter (reduced : Bool) : Read.Movable (readInter reduced) :=
    .ite (.pure _) InterTools.read_movable
  exact (ids _).bind fun _ => bit_movable.bind fun _ => bit_movable.bind fun _ =>
    bit_movable.bind fun _ => (inter _).bind fun _ => bit_movable.bind fun _ =>
      bit_movable.bind fun _ => bit_movable.bind fun _ => (ColorConfig.read_movable _).bind fun _ =>
        bit_movable.bind fun _ => .pure _

/-- What stands behind the frame dimensions does not depend on them. -/
theorem readBehind_eq (opening : Opening) (header again : ObuHeader)
    (dimensions other : FrameDimensions) :
    readBehind opening again other =
      (fun sequence => { sequence with header := again, dimensions := other }) <$>
        readBehind opening header dimensions := by
  simp only [readBehind, map_bind, map_pure]

/-- What a header was read from, and that other dimensions are read in the place of its own. -/
theorem read_resized {header : ObuHeader} {reader behind : BitReader} {sequence : SequenceHeader}
    (run : read header reader = .ok sequence behind) :
    ∃ front back, reader.Advances (front ++ (sequence.dimensions.code ++ back)) behind ∧
      sequence.dimensions.Expressible ∧
      sequence.dimensions.span = ⟨reader.pos + front.length,
        reader.pos + front.length + sequence.dimensions.code.length⟩ ∧
      ∀ (again : ObuHeader) (other : FrameDimensions), other.Expressible →
        other.span =
          ⟨reader.pos + front.length, reader.pos + front.length + other.code.length⟩ →
        (read again).Yields reader.pos (front ++ (other.code ++ back))
          { sequence with header := again, dimensions := other } := by
  rw [read_eq] at run
  obtain ⟨opening, before, first, run⟩ := Step.bind_eq_ok.1 run
  obtain ⟨dimensions, after, second, third⟩ := Step.bind_eq_ok.1 run
  obtain ⟨front, advances, opens⟩ := readOpening_movable _ _ _ first
  obtain ⟨coded, span, expressible⟩ := FrameDimensions.read_sound second
  obtain ⟨back, onward, rest⟩ := readBehind_movable _ _ _ _ _ _ third
  have own : sequence.dimensions = dimensions := by
    rw [readBehind_eq opening header header dimensions dimensions] at third
    obtain ⟨found, -, rfl⟩ := Step.map_eq_ok.1 third
    rfl
  rw [coded.pos, advances.pos] at span
  rw [own]
  refine ⟨front, back, advances.trans (coded.trans onward), expressible, span, ?_⟩
  intro again other legal place
  rw [read_eq]
  refine (opens _).bind ((FrameDimensions.read_yields legal place).bind ?_)
  rw [readBehind_eq opening header again dimensions other]
  exact (rest _).map _

/-- The dimensions are part of what is read. -/
theorem parse_dimensions_le {header : ObuHeader} {payload : Bytes} {sequence : SequenceHeader}
    {behind : BitReader} (parsed : parse header payload = .ok sequence behind) :
    sequence.dimensions.span.stop ≤ behind.pos := by
  obtain ⟨front, back, advances, -, span, -⟩ := read_resized parsed
  rw [span, advances.pos, List.length_append, List.length_append]
  simp only
  omega

/-- A payload with the code of resized dimensions in the place of a header's own is read as the
    header of the same sequence with these dimensions. -/
theorem parse_resized {header again : ObuHeader} {payload output : Bytes}
    {sequence target : SequenceHeader} {behind : BitReader} {width height stop : Nat} {rest : Bits}
    (parsed : parse header payload = .ok sequence behind) (inside : behind.pos ≤ stop)
    (resized : sequence.withDimensions width height = .ok target)
    (bits : Bits.ofBytes output =
      spliced payload sequence.dimensions.span stop target.dimensions.code ++ rest) :
    ∃ last, parse again output = .ok { target with header := again } last := by
  obtain ⟨front, back, advances, expressible, span, others⟩ := read_resized parsed
  obtain ⟨dimensions, rfl, legal, -, -, place⟩ := withDimensions_sound expressible resized
  have whole : Bits.ofBytes payload =
      front ++ (sequence.dimensions.code ++ back) ++ behind.rest := advances.rest
  have pos := advances.pos
  simp only [BitReader.ofBytes, Nat.zero_add, List.length_append] at span others pos
  rw [span] at place
  obtain ⟨more, onward⟩ : ∃ more,
      (⟨sequence.dimensions.span.stop, stop⟩ : BitSpan).of payload = back ++ more := by
    have split : Bits.ofBytes payload =
        front ++ sequence.dimensions.code ++ (back ++ behind.rest) := by
      simpa only [List.append_assoc] using whole
    rw [span, ← List.length_append]
    refine of_behind split ?_
    rw [List.length_append]
    omega
  have start : (⟨0, sequence.dimensions.span.start⟩ : BitSpan).of payload = front := by
    rw [span]
    exact of_front (List.append_assoc _ _ _ ▸ whole)
  rw [spliced, start, onward] at bits
  have input : Bits.ofBytes output =
      front ++ (dimensions.code ++ back) ++ (more ++ rest) := by
    simpa only [List.append_assoc] using bits
  have run := others again dimensions legal place (more ++ rest)
  rw [← input] at run
  exact ⟨_, run⟩

/-- A header is part of the OBU that it is read for. -/
theorem parse_header {header : ObuHeader} {payload : Bytes} {sequence : SequenceHeader}
    {behind : BitReader} (parsed : parse header payload = .ok sequence behind) :
    sequence.header = header := by
  rw [parse, Read.runOn, read_eq] at parsed
  obtain ⟨opening, _, -, run⟩ := Step.bind_eq_ok.1 parsed
  obtain ⟨dimensions, _, -, run⟩ := Step.bind_eq_ok.1 run
  rw [readBehind_eq opening header header dimensions dimensions] at run
  obtain ⟨found, -, rfl⟩ := Step.map_eq_ok.1 run
  rfl

/-- A header that is written for any legal size, closed and filled up is read in the same OBU as the
    header that the writer yielded. Around the frame dimensions it has the bits of its payload, and
    with its own size it has all of the content's bits. Nothing is written for other sizes. -/
theorem writeWithDimensions_parses {header : ObuHeader} {payload : Bytes}
    {sequence : SequenceHeader} {behind : BitReader} {stop : Nat}
    (parsed : parse header payload = .ok sequence behind)
    (closed : TrailingBit.position payload = .ok stop) (inside : behind.pos ≤ stop) :
    (∀ width height, 1 ≤ width → width ≤ FrameDimensions.maxDimension →
      1 ≤ height → height ≤ FrameDimensions.maxDimension →
      ∃ target content, sequence.withDimensions width height = .ok target ∧
        content = spliced payload sequence.dimensions.span stop target.dimensions.code ∧
        (width = sequence.dimensions.maxWidth → height = sequence.dimensions.maxHeight →
          target = sequence ∧ content = (⟨0, stop⟩ : BitSpan).of payload) ∧
        ∀ capacity, content.length < 8 * capacity →
          ∃ written output finished last,
            sequence.writeWithDimensions payload width height (.empty capacity) =
              .ok target written ∧
            (do Emit.trailingBits; Emit.finish) written = .ok output finished ∧
            Bits.ofBytes output = content ++ Emit.closing content.length ∧
            parse header output = .ok target last) ∧
    ∀ width height,
      ¬((1 ≤ width ∧ width ≤ FrameDimensions.maxDimension) ∧
        (1 ≤ height ∧ height ≤ FrameDimensions.maxDimension)) →
      ∀ writer, ∃ name value, sequence.writeWithDimensions payload width height writer =
        .error (.raised (.dimensionOutside name value)) writer := by
  have own := parse_header parsed
  have short := Nat.le_trans (parse_dimensions_le parsed) inside
  refine ⟨?_, fun width height illegal => sequence.writeWithDimensions_refuses payload illegal⟩
  intro width height least most least' most'
  obtain ⟨target, resized⟩ := sequence.withDimensions_gives ⟨least, most⟩ ⟨least', most'⟩
  have appends := writeWithDimensions_splices parsed closed short resized
  refine ⟨target, _, resized, rfl, ?_, ?_⟩
  · rintro rfl rfl
    obtain rfl : sequence = target := Except.ok.inj ((withDimensions_own parsed).symm.trans resized)
    exact ⟨rfl, spliced_own parsed short⟩
  · intro capacity room
    obtain ⟨written, output, finished, first, second, total⟩ := Emit.finish_written appends room
    obtain ⟨last, again⟩ : ∃ last, parse header output =
        .ok { target with header := header } last := parse_resized parsed inside resized total
    have same : target.header = header := by
      obtain ⟨dimensions, -, found⟩ := Checked.bind_eq_ok.1 resized
      cases found
      exact own
    rw [← same] at again ⊢
    exact ⟨written, output, finished, last, first, second, total, again⟩

/-- The header of 128 by 128 stills is rewritten for the widest pictures, but for no empty ones. -/
theorem writeWithDimensions_parses_widest :
    ∃ sequence target behind written output finished last,
      parse ⟨.sequenceHeader, none, none⟩ [0x18, 0x19, 0xBF, 0xFF, 0x00, 0x02] =
        .ok sequence behind ∧
      behind.pos ≤ 46 ∧
      sequence.writeWithDimensions [0x18, 0x19, 0xBF, 0xFF, 0x00, 0x02] 65536 128 (.empty 9) =
        .ok target written ∧
      (do Emit.trailingBits; Emit.finish) written = .ok output finished ∧
      parse ⟨.sequenceHeader, none, none⟩ output = .ok target last ∧
      ∃ name value, sequence.writeWithDimensions [0x18, 0x19, 0xBF, 0xFF, 0x00, 0x02] 65536 0
        (.empty 9) = .error (.raised (.dimensionOutside name value)) (.empty 9) := by
  have facts : Step.Succeeds (fun sequence behind => behind.pos ≤ 46 ∧
      (sequence.withDimensions 65536 128).map (fun target =>
        decide ((spliced [0x18, 0x19, 0xBF, 0xFF, 0x00, 0x02] sequence.dimensions.span 46
          target.dimensions.code).length < 8 * 9)) = .ok true)
      (parse ⟨.sequenceHeader, none, none⟩ [0x18, 0x19, 0xBF, 0xFF, 0x00, 0x02]) := by
    decide +kernel
  obtain ⟨sequence, behind, parsed, inside, fits⟩ := facts.eq_ok
  obtain ⟨rewritten, refused⟩ := writeWithDimensions_parses parsed
    (by decide +kernel : TrailingBit.position [0x18, 0x19, 0xBF, 0xFF, 0x00, 0x02] = .ok 46)
    inside
  obtain ⟨target, _, resized, rfl, -, writes⟩ :=
    rewritten 65536 128 (by decide) (by decide) (by decide) (by decide)
  rw [resized] at fits
  obtain ⟨written, output, finished, last, first, second, -, again⟩ :=
    writes 9 (of_decide_eq_true (Except.ok.inj fits))
  exact ⟨sequence, target, behind, written, output, finished, last, parsed, inside, first, second,
    again, refused 65536 0 (by decide) _⟩

end SequenceHeader

end Av1Tiling
