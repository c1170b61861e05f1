import Av1Tiling.Proofs.Bits.Splicing
import Av1Tiling.Proofs.Bits.Writing
import Av1Tiling.Proofs.Code.TrailingBit
import Av1Tiling.Proofs.Field
import Av1Tiling.Proofs.Sequence.Safety

/-!
# Rewritten sequence headers

The frame dimensions of a sequence header are coded in the span that the header knows, so a header
that is written with its own dimensions is written as it was.
-/

namespace Av1Tiling

namespace FrameDimensions

/-- Each side is coded in as many bits as the dimensions say. -/
structure Expressible (dimensions : FrameDimensions) : Prop where
  widthBits : 1 ≤ dimensions.widthBits ∧ dimensions.widthBits ≤ 16
  heightBits : 1 ≤ dimensions.heightBits ∧ dimensions.heightBits ≤ 16
  width : 1 ≤ dimensions.maxWidth ∧ dimensions.maxWidth ≤ 2 ^ dimensions.widthBits
  height : 1 ≤ dimensions.maxHeight ∧ dimensions.maxHeight ≤ 2 ^ dimensions.heightBits

def code (dimensions : FrameDimensions) : Bits :=
  Bits.ofNat 4 (dimensions.widthBits - 1) ++ (Bits.ofNat 4 (dimensions.heightBits - 1) ++
    (Bits.ofNat dimensions.widthBits (dimensions.maxWidth - 1) ++
      Bits.ofNat dimensions.heightBits (dimensions.maxHeight - 1)))

theorem length_code (dimensions : FrameDimensions) :
    dimensions.code.length = 8 + dimensions.widthBits + dimensions.heightBits := by
  simp only [code, List.length_append, Bits.length_ofNat]
  omega

theorem read_sound {reader behind : BitReader} {dimensions : FrameDimensions}
    (run : read reader = .ok dimensions behind) :
    reader.Advances dimensions.code behind ∧ dimensions.span = ⟨reader.pos, behind.pos⟩ ∧
      dimensions.Expressible := by
  obtain ⟨start, _, first, run⟩ := Step.bind_eq_ok.1 run
  cases first
  obtain ⟨widthBits, _, second, run⟩ := Step.bind_eq_ok.1 run
  obtain ⟨heightBits, _, third, run⟩ := Step.bind_eq_ok.1 run
  obtain ⟨width, _, fourth, run⟩ := Step.bind_eq_ok.1 run
  obtain ⟨height, _, fifth, run⟩ := Step.bind_eq_ok.1 run
  obtain ⟨stop, _, last, run⟩ := Step.bind_eq_ok.1 run
  cases last
  cases run
  obtain ⟨⟨-, shortWidth⟩, advances₁⟩ := (Read.bits_decodes 4).sound second
  obtain ⟨⟨-, shortHeight⟩, advances₂⟩ := (Read.bits_decodes 4).sound third
  obtain ⟨⟨-, narrow⟩, advances₃⟩ := (Read.bits_decodes _).sound fourth
  obtain ⟨⟨-, low⟩, advances₄⟩ := (Read.bits_decodes _).sound fifth
  refine ⟨?_, rfl, ?_⟩
  · simp only [code, Nat.add_sub_cancel]
    exact advances₁.trans (advances₂.trans (advances₃.trans advances₄))
  · constructor <;> simp only <;> omega

/-- Dimensions are read from their code, with the place of the code. -/
theorem read_yields {dimensions : FrameDimensions} {pos : Nat}
    (expressible : dimensions.Expressible)
    (span : dimensions.span = ⟨pos, pos + dimensions.code.length⟩) :
    read.Yields pos dimensions.code dimensions := by
  obtain ⟨widthBits, heightBits, width, height, span⟩ := dimensions
  obtain ⟨shortWidth, shortHeight, fitsWidth, fitsHeight⟩ := expressible
  obtain ⟨wide, rfl⟩ : ∃ wide, widthBits = wide + 1 := ⟨_, (Nat.sub_add_cancel shortWidth.1).symm⟩
  obtain ⟨high, rfl⟩ : ∃ high, heightBits = high + 1 := ⟨_, (Nat.sub_add_cancel shortHeight.1).symm⟩
  obtain ⟨right, rfl⟩ : ∃ right, width = right + 1 := ⟨_, (Nat.sub_add_cancel fitsWidth.1).symm⟩
  obtain ⟨bottom, rfl⟩ : ∃ bottom, height = bottom + 1 :=
    ⟨_, (Nat.sub_add_cancel fitsHeight.1).symm⟩
  simp only [length_code] at shortWidth shortHeight fitsWidth fitsHeight span
  subst span
  have coded {count value : Nat} (narrow : count ≤ 64) (fits : value < 2 ^ count) (pos : Nat) :
      (Read.bits count).Yields pos (Bits.ofNat count value) value :=
    (Read.bits_decodes count).yields value pos ⟨narrow, fits⟩
  intro rest
  have bits (span : BitSpan) : code ⟨wide + 1, high + 1, right + 1, bottom + 1, span⟩ ++ rest =
      Bits.ofNat 4 wide ++ (Bits.ofNat 4 high ++ (Bits.ofNat (wide + 1) right ++
        (Bits.ofNat (high + 1) bottom ++ rest))) := by
    simp only [code, Nat.add_sub_cancel, List.append_assoc]
  have first := coded (by decide) (by omega : wide < 2 ^ 4)
  have second := coded (by decide) (by omega : high < 2 ^ 4)
  have third := coded (by omega) (by omega : right < 2 ^ (wide + 1))
  have fourth := coded (by omega) (by omega : bottom < 2 ^ (high + 1))
  have here (pos : Nat) (rest : Bits) : Read.pos ⟨pos, rest⟩ = .ok pos ⟨pos, rest⟩ := rfl
  rw [bits, read, Step.bind_of_ok (here _ _), Step.bind_of_ok (first _ _),
    Step.bind_of_ok (second _ _), Step.bind_of_ok (third _ _), Step.bind_of_ok (fourth _ _),
    Step.bind_of_ok (here _ _)]
  have stop : pos + 4 + 4 + (wide + 1) + (high + 1) = pos + (8 + (wide + 1) + (high + 1)) := by
    omega
  simp only [Bits.length_ofNat, length_code, Step.pure_eq, stop]

/-- Dimensions that are coded in so many bits need no more of them. -/
theorem bitsFor_eq_ok (name : String) {bits side : Nat} (present : 1 ≤ bits) (short : bits ≤ 16)
    (some : 1 ≤ side) (fits : side ≤ 2 ^ bits) : bitsFor name bits side = .ok bits := by
  have most : 2 ^ bits ≤ 2 ^ 16 := Nat.pow_le_pow_right (by decide) short
  have legal : ¬(side = 0 ∨ maxDimension < side) := by
    rw [maxDimension]
    omega
  have enough : floorLog2 (side - 1) + 1 ≤ bits := by
    rw [floorLog2]
    by_cases empty : side - 1 = 0
    · rw [empty]
      exact present
    · exact (Nat.log2_lt empty).2 (by omega)
  rw [bitsFor, if_neg legal, Nat.max_eq_left enough]

/-- Dimensions of the same size are the same. -/
theorem resize_same {dimensions : FrameDimensions} (expressible : dimensions.Expressible)
    (span : dimensions.span.stop = dimensions.span.start + dimensions.code.length) :
    dimensions.resize dimensions.maxWidth dimensions.maxHeight = .ok dimensions := by
  have width := bitsFor_eq_ok "frame width" expressible.widthBits.1 expressible.widthBits.2
    expressible.width.1 expressible.width.2
  have height := bitsFor_eq_ok "frame height" expressible.heightBits.1 expressible.heightBits.2
    expressible.height.1 expressible.height.2
  rw [length_code, ← Nat.add_assoc, ← Nat.add_assoc] at span
  rw [resize, Checked.bind_of_ok width, Checked.bind_of_ok height]
  simp only [← span]
  rfl

/-- There are dimensions of any legal size. -/
theorem resize_gives (dimensions : FrameDimensions) {width height : Nat}
    (wide : 1 ≤ width ∧ width ≤ maxDimension) (high : 1 ≤ height ∧ height ≤ maxDimension) :
    ∃ resized, dimensions.resize width height = .ok resized := by
  have bits : ∀ (name : String) (current : Nat) {side : Nat}, 1 ≤ side ∧ side ≤ maxDimension →
      bitsFor name current side = .ok (max current (floorLog2 (side - 1) + 1)) :=
    fun _ _ _ legal => if_neg (by omega)
  exact ⟨_, by rw [resize, bits _ _ wide, bits _ _ high]; rfl⟩

/-- There are no dimensions of any other size. -/
theorem resize_refuses (dimensions : FrameDimensions) {width height : Nat}
    (illegal : ¬((1 ≤ width ∧ width ≤ maxDimension) ∧ (1 ≤ height ∧ height ≤ maxDimension))) :
    ∃ name value, dimensions.resize width height = .error (.dimensionOutside name value) := by
  have refused : ∀ (name : String) (current : Nat) {side : Nat},
      ¬(1 ≤ side ∧ side ≤ maxDimension) →
      bitsFor name current side = .error (.dimensionOutside name side) :=
    fun _ _ _ illegal => if_pos (by omega)
  by_cases wide : 1 ≤ width ∧ width ≤ maxDimension
  · have legal : bitsFor "frame width" dimensions.widthBits width = .ok _ := if_neg (by omega)
    exact ⟨_, _, by rw [resize, legal, refused _ _ fun high => illegal ⟨wide, high⟩]; rfl⟩
  · exact ⟨_, _, by rw [resize, refused _ _ wide]; rfl⟩

/-- As many bits as are found are enough. They are never fewer than before, and no more than the
    largest size needs where they were no more before. -/
theorem bitsFor_enough {name : String} {current value found : Nat}
    (success : bitsFor name current value = .ok found) :
    (1 ≤ found ∧ found ≤ max current 16) ∧ (1 ≤ value ∧ value ≤ maxDimension) ∧
      value ≤ 2 ^ found := by
  rw [bitsFor] at success
  split at success
  next => cases success
  next legal =>
    cases success
    rw [maxDimension, not_or, Nat.not_lt] at legal
    have enough : value - 1 < 2 ^ (floorLog2 (value - 1) + 1) := Nat.lt_log2_self
    have most : floorLog2 (value - 1) + 1 ≤ 16 := by
      rw [floorLog2]
      by_cases empty : value - 1 = 0
      · rw [empty]
        decide
      · exact (Nat.log2_lt empty).2 (by omega)
    have wider : 2 ^ (floorLog2 (value - 1) + 1) ≤
        2 ^ max current (floorLog2 (value - 1) + 1) :=
      Nat.pow_le_pow_right (by decide) (Nat.le_max_right ..)
    rw [maxDimension]
    omega

/-- Resized dimensions are of the given size, and can be coded where the others are. -/
theorem resize_sound {dimensions resized : FrameDimensions} {width height : Nat}
    (expressible : dimensions.Expressible)
    (success : dimensions.resize width height = .ok resized) :
    resized.Expressible ∧ resized.maxWidth = width ∧ resized.maxHeight = height ∧
      resized.span =
        ⟨dimensions.span.start, dimensions.span.start + resized.code.length⟩ := by
  obtain ⟨widthBits, wide, success⟩ := Checked.bind_eq_ok.1 success
  obtain ⟨heightBits, high, success⟩ := Checked.bind_eq_ok.1 success
  cases success
  obtain ⟨⟨present, shortWidth⟩, width, fitsWidth⟩ := bitsFor_enough wide
  obtain ⟨⟨present', shortHeight⟩, height, fitsHeight⟩ := bitsFor_enough high
  rw [Nat.max_eq_right expressible.widthBits.2] at shortWidth
  rw [Nat.max_eq_right expressible.heightBits.2] at shortHeight
  refine ⟨⟨⟨present, shortWidth⟩, ⟨present', shortHeight⟩, ⟨width.1, fitsWidth⟩,
    ⟨height.1, fitsHeight⟩⟩, rfl, rfl, ?_⟩
  rw [length_code, ← Nat.add_assoc, ← Nat.add_assoc]

theorem write_appends {dimensions : FrameDimensions} (expressible : dimensions.Expressible) :
    Write.Appends dimensions.write dimensions.code () := by
  have widthBits := expressible.widthBits
  have heightBits := expressible.heightBits
  have width := expressible.width
  have height := expressible.height
  have first := Field.bits_write_appends "frame_width_bits_minus_1"
    (by decide : 4 < 32) (by omega : dimensions.widthBits - 1 < 2 ^ 4)
  have second := Field.bits_write_appends "frame_height_bits_minus_1"
    (by decide : 4 < 32) (by omega : dimensions.heightBits - 1 < 2 ^ 4)
  have third := Field.bits_write_appends "max_frame_width_minus_1"
    (by omega : dimensions.widthBits < 32)
    (by omega : dimensions.maxWidth - 1 < 2 ^ dimensions.widthBits)
  have fourth := Field.bits_write_appends "max_frame_height_minus_1"
    (by omega : dimensions.heightBits < 32)
    (by omega : dimensions.maxHeight - 1 < 2 ^ dimensions.heightBits)
  exact first.bind (second.bind (third.bind fourth))

end FrameDimensions

namespace SequenceHeader

theorem withDimensions_gives (sequence : SequenceHeader) {width height : Nat}
    (wide : 1 ≤ width ∧ width ≤ FrameDimensions.maxDimension)
    (high : 1 ≤ height ∧ height ≤ FrameDimensions.maxDimension) :
    ∃ target, sequence.withDimensions width height = .ok target := by
  obtain ⟨resized, success⟩ := sequence.dimensions.resize_gives wide high
  exact ⟨_, by rw [withDimensions, success]; rfl⟩

/-- The header of the same sequence with other dimensions, which are of the given size and can be
    coded where its own are. -/
theorem withDimensions_sound {sequence target : SequenceHeader} {width height : Nat}
    (expressible : sequence.dimensions.Expressible)
    (resized : sequence.withDimensions width height = .ok target) :
    ∃ dimensions : FrameDimensions, target = { sequence with dimensions } ∧
      dimensions.Expressible ∧ dimensions.maxWidth = width ∧ dimensions.maxHeight = height ∧
      dimensions.span = ⟨sequence.dimensions.span.start,
        sequence.dimensions.span.start + dimensions.code.length⟩ := by
  obtain ⟨dimensions, found, same⟩ := Checked.bind_eq_ok.1 resized
  exact ⟨dimensions, (Except.ok.inj same).symm, FrameDimensions.resize_sound expressible found⟩

/-- Nothing is written for a size that no frame can have. -/
theorem writeWithDimensions_refuses (sequence : SequenceHeader) (payload : Bytes)
    {width height : Nat}
    (illegal : ¬((1 ≤ width ∧ width ≤ FrameDimensions.maxDimension) ∧
      (1 ≤ height ∧ height ≤ FrameDimensions.maxDimension))) (writer : BitWriter) :
    ∃ name value, sequence.writeWithDimensions payload width height writer =
      .error (.raised (.dimensionOutside name value)) writer := by
  obtain ⟨name, value, refused⟩ := sequence.dimensions.resize_refuses illegal
  have none : sequence.withDimensions width height = .error (.dimensionOutside name value) := by
    rw [withDimensions, refused]
    rfl
  refine ⟨name, value, ?_⟩
  rw [writeWithDimensions, none]
  rfl

/-- What stands in front of the frame dimensions, and that they are read behind it. -/
theorem read_dimensions {header : ObuHeader} {reader behind : BitReader}
    {sequence : SequenceHeader} (run : read header reader = .ok sequence behind) :
    ∃ before after, reader.Reaches before ∧
      FrameDimensions.read before = .ok sequence.dimensions after := by
  obtain ⟨profile, _, first, run⟩ := Step.bind_eq_ok.1 run
  obtain ⟨stillPicture, _, second, run⟩ := Step.bind_eq_ok.1 run
  obtain ⟨reduced, _, third, run⟩ := Step.bind_eq_ok.1 run
  obtain ⟨_, _, fourth, run⟩ := Step.bind_eq_ok.1 run
  obtain ⟨operation, before, fifth, run⟩ := Step.bind_eq_ok.1 run
  obtain ⟨dimensions, after, found, run⟩ := Step.bind_eq_ok.1 run
  obtain ⟨_, _, _, run⟩ := Step.bind_eq_ok.1 run
  obtain ⟨_, _, _, run⟩ := Step.bind_eq_ok.1 run
  obtain ⟨_, _, _, run⟩ := Step.bind_eq_ok.1 run
  obtain ⟨_, _, _, run⟩ := Step.bind_eq_ok.1 run
  obtain ⟨_, _, _, run⟩ := Step.bind_eq_ok.1 run
  obtain ⟨_, _, _, run⟩ := Step.bind_eq_ok.1 run
  obtain ⟨_, _, _, run⟩ := Step.bind_eq_ok.1 run
  obtain ⟨_, _, _, run⟩ := Step.bind_eq_ok.1 run
  obtain ⟨_, _, _, run⟩ := Step.bind_eq_ok.1 run
  obtain ⟨_, _, _, run⟩ := Step.bind_eq_ok.1 run
  cases run
  have reached := ((Read.bits_safe 3).of_ok (.refl _) first).2
  have reached := (Read.bit_safe.of_ok reached second).2
  have reached := (Read.bit_safe.of_ok reached third).2
  have reached := ((checkStill_safe stillPicture reduced).of_ok reached fourth).2
  have reached := ((readOperation_safe reduced).of_ok reached fifth).2
  exact ⟨before, after, reached, found⟩

/-- Where the frame dimensions stand in a payload. -/
theorem parse_dimensions {header : ObuHeader} {payload : Bytes} {sequence : SequenceHeader}
    {behind : BitReader} (parsed : parse header payload = .ok sequence behind) :
    ∃ front rest, Bits.ofBytes payload = front ++ sequence.dimensions.code ++ rest ∧
      sequence.dimensions.span = ⟨front.length, front.length + sequence.dimensions.code.length⟩ ∧
      sequence.dimensions.Expressible := by
  obtain ⟨before, after, ⟨front, reached⟩, found⟩ := read_dimensions parsed
  obtain ⟨advances, span, expressible⟩ := FrameDimensions.read_sound found
  have start : before.pos = front.length := by
    rw [reached.pos]
    exact Nat.zero_add _
  rw [advances.pos, start] at span
  refine ⟨front, after.rest, ?_, span, expressible⟩
  rw [List.append_assoc, ← advances.rest]
  exact reached.rest

/-- A header that is written with other dimensions has their code in the place of its own, and the
    bits of its payload everywhere else. -/
theorem writeWithDimensions_splices {header : ObuHeader} {payload : Bytes}
    {sequence target : SequenceHeader} {behind : BitReader} {width height stop : Nat}
    (parsed : parse header payload = .ok sequence behind)
    (closed : TrailingBit.position payload = .ok stop)
    (inside : sequence.dimensions.span.stop ≤ stop)
    (resized : sequence.withDimensions width height = .ok target) :
    Write.Appends (sequence.writeWithDimensions payload width height)
      (spliced payload sequence.dimensions.span stop target.dimensions.code) target := by
  obtain ⟨front, rest, -, span, expressible⟩ := parse_dimensions parsed
  obtain ⟨dimensions, rfl, legal, -⟩ := withDimensions_sound expressible resized
  have ordered : sequence.dimensions.span.start ≤ sequence.dimensions.span.stop := by
    rw [span]
    exact Nat.le_add_right ..
  have bound := TrailingBit.position_lt closed
  have copied := Write.copy_appends (Nat.zero_le sequence.dimensions.span.start)
    (by omega : sequence.dimensions.span.start ≤ 8 * payload.length)
  have rest := Write.copy_appends inside (by omega : stop ≤ 8 * payload.length)
  have short : ¬stop < sequence.dimensions.span.stop := by omega
  rw [spliced, List.append_assoc, writeWithDimensions, Step.lift_bind resized,
    Step.lift_bind closed]
  simp only [short, if_false]
  exact copied.bind ((FrameDimensions.write_appends legal).bind (rest.map fun _ => _))

/-- A header that was read has the dimensions that it is given for its own size. -/
theorem withDimensions_own {header : ObuHeader} {payload : Bytes} {sequence : SequenceHeader}
    {behind : BitReader} (parsed : parse header payload = .ok sequence behind) :
    sequence.withDimensions sequence.dimensions.maxWidth sequence.dimensions.maxHeight =
      .ok sequence := by
  obtain ⟨front, rest, -, span, expressible⟩ := parse_dimensions parsed
  rw [withDimensions, FrameDimensions.resize_same expressible (by rw [span])]
  rfl

/-- With its own dimensions in their place, the content of a header is that of its payload. -/
theorem spliced_own {header : ObuHeader} {payload : Bytes} {sequence : SequenceHeader}
    {behind : BitReader} {stop : Nat} (parsed : parse header payload = .ok sequence behind)
    (inside : sequence.dimensions.span.stop ≤ stop) :
    spliced payload sequence.dimensions.span stop sequence.dimensions.code =
      (⟨0, stop⟩ : BitSpan).of payload := by
  obtain ⟨front, rest, bits, span, -⟩ := parse_dimensions parsed
  have own : sequence.dimensions.span.of payload = sequence.dimensions.code := by
    rw [span]
    exact of_between bits
  have ordered : sequence.dimensions.span.start ≤ sequence.dimensions.span.stop := by
    rw [span]
    exact Nat.le_add_right ..
  rw [← own, spliced_of ordered inside]

/-- A header that is written with its own dimensions has the bits of its payload. -/
theorem writeWithDimensions_appends {header : ObuHeader} {payload : Bytes}
    {sequence : SequenceHeader} {behind : BitReader} {stop : Nat}
    (parsed : parse header payload = .ok sequence behind)
    (closed : TrailingBit.position payload = .ok stop)
    (inside : sequence.dimensions.span.stop ≤ stop) :
    Write.Appends (sequence.writeWithDimensions payload sequence.dimensions.maxWidth
      sequence.dimensions.maxHeight) ((⟨0, stop⟩ : BitSpan).of payload) sequence := by
  rw [← spliced_own parsed inside]
  exact writeWithDimensions_splices parsed closed inside (withDimensions_own parsed)

end SequenceHeader

end Av1Tiling
