import Av1Tiling.Proofs.Code.Safety
import Av1Tiling.Sequence.Header

/-!
# Sequence headers without faults

Reading a sequence header never leaves its ranges, and what was read is in range itself
(`SequenceHeader.InRange`): the sizes and widths that frame headers of the sequence compute with.
-/

namespace Av1Tiling

variable {start : BitReader}

/-- There are bits for the layers of an OBU in the choice of layers of an operating point. -/
structure ObuHeader.LayersFit (header : ObuHeader) : Prop where
  temporal : header.temporalId < OperatingPoint.layerBits
  spatial : header.spatialId + 8 < OperatingPoint.layerBits

/-- Frames have a legal size, and their sides are coded in at most 16 bits. -/
structure FrameDimensions.InRange (dimensions : FrameDimensions) : Prop where
  width : 1 ≤ dimensions.maxWidth ∧ dimensions.maxWidth ≤ maxDimension
  height : 1 ≤ dimensions.maxHeight ∧ dimensions.maxHeight ≤ maxDimension
  widthBits : dimensions.widthBits ≤ 16
  heightBits : dimensions.heightBits ≤ 16

/-- Identifiers are longer than distances between them, and shorter than words. -/
structure FrameIds.InRange (ids : FrameIds) : Prop where
  delta : ids.deltaLength ≤ ids.idLength
  word : ids.idLength < 31

/-- Order hints are short, but not empty where there are any. -/
structure InterTools.InRange (inter : InterTools) : Prop where
  present : inter.orderHint = true → 1 ≤ inter.orderHintBits
  short : inter.orderHintBits ≤ 8

/-- The header as frames may compute with it. -/
structure SequenceHeader.InRange (sequence : SequenceHeader) : Prop where
  dimensions : sequence.dimensions.InRange
  frameIds : ∀ ids, sequence.frameIds = some ids → ids.InRange
  inter : sequence.inter.InRange

namespace ColorConfig

theorem readBitDepth_safe (profile : Nat) :
    Read.Safe start (readBitDepth profile) fun _ => True := by
  refine Read.bit_safe.bind fun high _ => .ite (fun _ => ?_) fun _ => .pure trivial
  exact (Read.bitIf_safe _).bind fun twelve _ => .pure trivial

theorem readDescription_safe : Read.Safe start readDescription fun _ => True := by
  refine Read.bit_safe.bind fun present _ => .ite (fun _ => ?_) fun _ => .pure trivial
  exact (Read.bits_safe 8).bind fun _ _ => (Read.bits_safe 8).bind fun _ _ =>
    (Read.bits_safe 8).bind fun _ _ => .pure trivial

theorem readSubsampling_safe (profile bitDepth : Nat) :
    Read.Safe start (readSubsampling profile bitDepth) fun _ => True := by
  refine .ite (fun _ => .pure trivial) fun _ => .ite (fun _ => .pure trivial) fun _ => ?_
  refine .ite (fun _ => ?_) fun _ => .pure trivial
  exact Read.bit_safe.bind fun x _ => (Read.bitIf_safe x).bind fun y _ => .pure trivial

theorem readSamplePosition_safe (subsampled : Bool) :
    Read.Safe start (readSamplePosition subsampled) fun _ => True :=
  .ite (fun _ => (Read.bits_safe 2).mono fun _ _ => trivial) fun _ => .pure trivial

theorem read_safe (profile : Nat) : Read.Safe start (read profile) fun _ => True := by
  refine (readBitDepth_safe profile).bind fun bitDepth _ => ?_
  refine (Read.bitIf_safe _).bind fun monochrome _ => ?_
  refine readDescription_safe.bind fun description _ => ?_
  refine .ite (fun _ => Read.bit_safe.bind fun _ _ => .pure trivial) fun _ => ?_
  refine .ite (fun _ => Read.bit_safe.bind fun _ _ => .pure trivial) fun _ => ?_
  refine Read.bit_safe.bind fun fullRange _ => ?_
  refine (readSubsampling_safe profile bitDepth).bind fun subsampling _ => ?_
  exact (readSamplePosition_safe _).bind fun _ _ => Read.bit_safe.bind fun _ _ => .pure trivial

end ColorConfig

theorem TimingInfo.read_safe : Read.Safe start TimingInfo.read fun _ => True := by
  refine Read.word_safe.bind fun _ _ => Read.word_safe.bind fun _ _ => ?_
  refine Read.bit_safe.bind fun equalInterval _ => ?_
  have ticks : Read.Safe start (TimingInfo.readTicks equalInterval) fun _ => True :=
    .ite (fun _ => (Uvlc.read_safe _ _).map _ fun _ _ => trivial) fun _ => .pure trivial
  exact ticks.bind fun _ _ => .pure trivial

theorem DecoderModel.read_safe : Read.Safe start DecoderModel.read fun _ => True :=
  (Read.bits_safe 5).bind fun _ _ => Read.word_safe.bind fun _ _ =>
    (Read.bits_safe 5).bind fun _ _ => (Read.bits_safe 5).bind fun _ _ => .pure trivial

namespace OperatingPoint

theorem readParameters_safe (decoderModel : Option DecoderModel) :
    Read.Safe start (readParameters decoderModel) fun _ => True := by
  cases decoderModel with
  | none => exact .pure trivial
  | some model =>
    have parameters : Read.Safe start (OperatingParameters.read model.bufferDelayLength)
        fun _ => True :=
      (Read.bits_safe _).bind fun _ _ => (Read.bits_safe _).bind fun _ _ =>
        Read.bit_safe.bind fun _ _ => .pure trivial
    refine Read.bit_safe.bind fun present _ => ?_
    exact .ite (fun _ => parameters.map _ fun _ _ => trivial) fun _ => .pure trivial

theorem readDelay_safe (present : Bool) : Read.Safe start (readDelay present) fun _ => True :=
  .ite (fun _ => (Read.bits_safe 4).map _ fun _ _ => trivial) fun _ => .pure trivial

theorem read_safe (decoderModel : Option DecoderModel) (delayPresent : Bool) :
    Read.Safe start (read decoderModel delayPresent) fun _ => True := by
  refine (Read.bits_safe 12).bind fun _ _ => (Read.bits_safe 5).bind fun level _ => ?_
  refine (Read.bitIf_safe _).bind fun _ _ => (readParameters_safe decoderModel).bind fun _ _ => ?_
  exact (Read.bitIf_safe _).bind fun hasDelay _ => (readDelay_safe hasDelay).bind fun _ _ =>
    .pure trivial

theorem readMany_safe (decoderModel : Option DecoderModel) (delayPresent : Bool) (count : Nat) :
    Read.Safe start (readMany decoderModel delayPresent count) fun _ => True := by
  induction count with
  | zero => exact .pure trivial
  | succ count ih =>
    exact (read_safe decoderModel delayPresent).bind fun _ _ => ih.bind fun _ _ => .pure trivial

end OperatingPoint

theorem FrameDimensions.read_safe : Read.Safe start FrameDimensions.read InRange := by
  refine Read.pos_safe.bind fun first _ => ?_
  refine (Read.bits_safe 4).bind fun widthBits shortWidth => ?_
  refine (Read.bits_safe 4).bind fun heightBits shortHeight => ?_
  refine (Read.bits_safe (widthBits + 1)).bind fun width narrow => ?_
  refine (Read.bits_safe (heightBits + 1)).bind fun height low => ?_
  refine Read.pos_safe.bind fun stop _ => .pure ?_
  have widest : 2 ^ (widthBits + 1) ≤ 2 ^ 16 := Nat.pow_le_pow_right (by decide) shortWidth
  have highest : 2 ^ (heightBits + 1) ≤ 2 ^ 16 := Nat.pow_le_pow_right (by decide) shortHeight
  constructor <;> simp only [maxDimension] <;> omega

theorem FrameIds.read_safe : Read.Safe start FrameIds.read InRange := by
  refine (Read.bits_safe 4).bind fun delta shortDelta => ?_
  refine (Read.bits_safe 3).bind fun additional short => .pure ?_
  constructor <;> simp only [FrameIds.idLength] <;> omega

namespace InterTools

theorem still_inRange : still.InRange :=
  ⟨by decide, by decide⟩

theorem readChoice_safe : Read.Safe start readChoice fun _ => True :=
  Read.bit_safe.bind fun _ _ => .ite (fun _ => .pure trivial) fun _ =>
    (Read.bits_safe 1).mono fun _ _ => trivial

theorem readIntegerMv_safe (screenContentTools : Nat) :
    Read.Safe start (readIntegerMv screenContentTools) fun _ => True :=
  .ite (fun _ => readChoice_safe) fun _ => .pure trivial

theorem readOrderHintBits_safe (present : Bool) :
    Read.Safe start (readOrderHintBits present) fun bits =>
      (present = true → 1 ≤ bits) ∧ bits ≤ 8 := by
  refine .ite (fun _ => (Read.bits_safe 3).map _ fun bits short => ?_) fun absent => .pure ?_
  · omega
  · exact ⟨fun present => absurd present absent, by decide⟩

theorem read_safe : Read.Safe start read InRange := by
  refine Read.bit_safe.bind fun _ _ => Read.bit_safe.bind fun _ _ => ?_
  refine Read.bit_safe.bind fun _ _ => Read.bit_safe.bind fun _ _ => ?_
  refine Read.bit_safe.bind fun orderHint _ => ?_
  refine (Read.bitIf_safe orderHint).bind fun _ _ => (Read.bitIf_safe orderHint).bind fun _ _ => ?_
  refine readChoice_safe.bind fun screenContentTools _ => ?_
  refine (readIntegerMv_safe screenContentTools).bind fun _ _ => ?_
  refine (readOrderHintBits_safe orderHint).bind fun bits known => ?_
  exact .pure ⟨known.1, known.2⟩

end InterTools

namespace SequenceHeader

theorem readClocks_safe : Read.Safe start readClocks fun _ => True := by
  refine Read.bit_safe.bind fun _ _ => .ite (fun _ => ?_) fun _ => .pure trivial
  refine TimingInfo.read_safe.bind fun _ _ => Read.bit_safe.bind fun _ _ => ?_
  exact .ite (fun _ => DecoderModel.read_safe.bind fun _ _ => .pure trivial) fun _ => .pure trivial

theorem readOperation_safe (reduced : Bool) :
    Read.Safe start (readOperation reduced) fun _ => True := by
  refine .ite (fun _ => (Read.bits_safe 5).bind fun _ _ => .pure trivial) fun _ => ?_
  refine readClocks_safe.bind fun clocks _ => Read.bit_safe.bind fun delayPresent _ => ?_
  refine (Read.bits_safe 5).bind fun count _ => ?_
  exact (OperatingPoint.readMany_safe clocks.2 delayPresent _).bind fun _ _ => .pure trivial

theorem readFrameIds_safe (reduced : Bool) :
    Read.Safe start (readFrameIds reduced) fun found =>
      ∀ ids, found = some ids → ids.InRange := by
  refine (Read.bitIf_safe _).bind fun present _ => .ite (fun _ => ?_) fun _ => .pure (by simp)
  refine FrameIds.read_safe.map _ fun ids inRange => ?_
  rintro _ ⟨⟩
  exact inRange

theorem checkStill_safe (stillPicture reduced : Bool) :
    Read.Safe start (liftM (checkStill stillPicture reduced)) fun _ => True :=
  .liftStream fun _ _ => trivial

theorem readInter_safe (reduced : Bool) :
    Read.Safe start (readInter reduced) InterTools.InRange :=
  .ite (fun _ => .pure InterTools.still_inRange) fun _ => InterTools.read_safe

/-- What is read as a sequence header is in range. -/
theorem read_safe (header : ObuHeader) : Read.Safe start (read header) InRange := by
  refine (Read.bits_safe 3).bind fun profile _ => ?_
  refine Read.bit_safe.bind fun stillPicture _ => Read.bit_safe.bind fun reduced _ => ?_
  refine (checkStill_safe stillPicture reduced).bind fun _ _ => ?_
  refine (readOperation_safe reduced).bind fun operation _ => ?_
  refine FrameDimensions.read_safe.bind fun dimensions dimensionsInRange => ?_
  refine (readFrameIds_safe reduced).bind fun frameIds idsInRange => ?_
  refine Read.bit_safe.bind fun _ _ => Read.bit_safe.bind fun _ _ => Read.bit_safe.bind fun _ _ => ?_
  refine (readInter_safe reduced).bind fun inter interInRange => ?_
  refine Read.bit_safe.bind fun _ _ => Read.bit_safe.bind fun _ _ => Read.bit_safe.bind fun _ _ => ?_
  refine (ColorConfig.read_safe profile).bind fun _ _ => Read.bit_safe.bind fun _ _ => ?_
  exact .pure ⟨dimensionsInRange, idsInRange, interInRange⟩

theorem parse_inRange {header : ObuHeader} {payload : Bytes} {sequence : SequenceHeader}
    {behind : BitReader} (parsed : parse header payload = .ok sequence behind) :
    sequence.InRange :=
  ((read_safe header).of_ok (.refl _) parsed).1

end SequenceHeader

end Av1Tiling
