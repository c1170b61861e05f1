import Av1Tiling.Proofs.Frame.Parts
import Av1Tiling.Proofs.Frame.Rewriting
import Av1Tiling.Proofs.Sequence.Rewriting

/-!
# Resized frame headers

A header that is written again for another frame size has that size in the place of its own, one bit
in the place of its render size and the code of another layout in the place of its tile info. Over
the same slots, and with a sequence header of the new size, it is read as the same header with the
new size and the new layout. This takes that the frame is scaled where it was scaled before: whether
it may copy blocks of itself is said only of frames that are not.
-/

namespace Av1Tiling

/-- The code of a frame size: the largest that there is, in as many bits as each side has. -/
def FrameDimensions.sizeCode (dimensions : FrameDimensions) : Bits :=
  Bits.ofNat dimensions.widthBits (dimensions.maxWidth - 1) ++
    Bits.ofNat dimensions.heightBits (dimensions.maxHeight - 1)

namespace FrameDimensions

/-- A frame as large as the dimensions allow can say its size. -/
structure Codable (dimensions : FrameDimensions) : Prop where
  bits : dimensions.widthBits ≤ 64 ∧ dimensions.heightBits ≤ 64
  width : 1 ≤ dimensions.maxWidth ∧ dimensions.maxWidth ≤ 2 ^ dimensions.widthBits
  height : 1 ≤ dimensions.maxHeight ∧ dimensions.maxHeight ≤ 2 ^ dimensions.heightBits
  small : dimensions.maxWidth ≤ maxDimension ∧ dimensions.maxHeight ≤ maxDimension

theorem Expressible.codable {dimensions : FrameDimensions} (expressible : dimensions.Expressible) :
    dimensions.Codable := by
  obtain ⟨widthBits, heightBits, width, height⟩ := expressible
  have wide : 2 ^ dimensions.widthBits ≤ 2 ^ 16 := Nat.pow_le_pow_right (by decide) widthBits.2
  have high : 2 ^ dimensions.heightBits ≤ 2 ^ 16 := Nat.pow_le_pow_right (by decide) heightBits.2
  refine ⟨by omega, width, height, ?_⟩
  rw [maxDimension]
  omega

theorem resize_codable {dimensions resized : FrameDimensions} {width height : Nat}
    (narrow : dimensions.widthBits ≤ 64 ∧ dimensions.heightBits ≤ 64)
    (success : dimensions.resize width height = .ok resized) : resized.Codable := by
  obtain ⟨widthBits, wide, success⟩ := Checked.bind_eq_ok.1 success
  obtain ⟨heightBits, high, success⟩ := Checked.bind_eq_ok.1 success
  cases success
  obtain ⟨⟨-, shortWidth⟩, width, fitsWidth⟩ := bitsFor_enough wide
  obtain ⟨⟨-, shortHeight⟩, height, fitsHeight⟩ := bitsFor_enough high
  exact ⟨⟨Nat.le_trans shortWidth (by omega), Nat.le_trans shortHeight (by omega)⟩,
    ⟨width.1, fitsWidth⟩, ⟨height.1, fitsHeight⟩, width.2, height.2⟩

end FrameDimensions

/-- The size of a frame that is as large as `dimensions` allow, and has `width` in front of
    super-resolution. -/
def FrameSize.resized (size : FrameSize) (dimensions : FrameDimensions) (width : Nat) :
    FrameSize where
  upscaledWidth := dimensions.maxWidth
  frameWidth := width
  frameHeight := dimensions.maxHeight
  renderWidth := dimensions.maxWidth
  renderHeight := dimensions.maxHeight
  superresDenom := size.superresDenom

namespace FrameSize

/-- A width of eight of eight parts is the whole width. -/
theorem downscaledWidth_unscaled {width found : Nat} :
    downscaledWidth width superresNum = .ok found ↔
      width * superresNum + superresNum / 2 < 2 ^ 32 ∧ found = width := by
  have whole : (width * superresNum + superresNum / 2) / superresNum = width := by
    rw [superresNum]
    omega
  constructor
  · intro success
    obtain ⟨total, first, second⟩ := Checked.bind_eq_ok.1 success
    obtain ⟨small, rfl⟩ := Checked.word_eq_ok_iff.1 first
    rw [Checked.div_eq_ok (by decide), whole] at second
    exact ⟨small, (Except.ok.inj second).symm⟩
  · rintro ⟨small, rfl⟩
    rw [downscaledWidth, Checked.bind_of_ok (Checked.word_eq_ok small),
      Checked.div_eq_ok (by decide), whole]

end FrameSize

/-! ## The size -/

namespace ReadFrame

open Read (bit_movable bits_movable bitIf_movable)

variable {sequence : SequenceHeader} {sizeOverride : Bool} {reader behind : BitReader}

theorem superresDenom_movable (sequence : SequenceHeader) :
    Read.Movable (superresDenom sequence) :=
  (bitIf_movable _).bind fun _ => .ite ((bits_movable 3).bind fun _ => .pure _) (.pure _)

theorem superres_downscaled {upscaledWidth denom width : Nat}
    (run : superres sequence upscaledWidth reader = .ok (denom, width) behind) :
    FrameSize.downscaledWidth upscaledWidth denom = .ok width := by
  obtain ⟨_, _, -, run⟩ := Step.bind_eq_ok.1 run
  obtain ⟨_, _, second, run⟩ := Step.bind_eq_ok.1 run
  cases run
  exact (Step.liftFault_eq_ok.1 second).1

/-- What is said of super-resolution is said in the same way in other dimensions. -/
theorem superres_sound {upscaledWidth denom width : Nat}
    (run : superres sequence upscaledWidth reader = .ok (denom, width) behind) :
    ∃ used, reader.Advances used behind ∧
      ∀ (dimensions : FrameDimensions) {other scaled : Nat},
        FrameSize.downscaledWidth other denom = .ok scaled → ∀ pos,
        Read.Yields (superres { sequence with dimensions } other) pos used (denom, scaled) := by
  obtain ⟨_, between, first, run⟩ := Step.bind_eq_ok.1 run
  obtain ⟨_, _, second, run⟩ := Step.bind_eq_ok.1 run
  cases run
  obtain ⟨-, rfl⟩ := Step.liftFault_eq_ok.1 second
  obtain ⟨used, advances, yields⟩ := superresDenom_movable sequence _ _ _ first
  refine ⟨used, advances, fun dimensions other scaled success pos rest => ?_⟩
  have same : superresDenom { sequence with dimensions } = superresDenom sequence := rfl
  rw [superres, same, Step.bind_of_ok (yields pos rest), Step.liftFault_bind success]
  rfl

theorem dimensions_sound {size : Nat × Nat} {span : Option BitSpan}
    (run : dimensions sequence sizeOverride reader = .ok (size, span) behind) :
    ∃ used, reader.Advances used behind ∧ (sizeOverride = false → used = []) ∧
      span = if sizeOverride then some ⟨reader.pos, reader.pos + used.length⟩ else none := by
  cases sizeOverride with
  | false =>
    cases run
    exact ⟨[], .refl _, fun _ => rfl, rfl⟩
  | true =>
    obtain ⟨used, advances, -⟩ := dimensions_exact sequence true _ _ _ run
    obtain ⟨⟨_, found⟩, _, first, run⟩ := Step.bind_eq_ok.1 run
    cases run
    obtain ⟨_, _, start, first⟩ := Step.bind_eq_ok.1 first
    obtain ⟨_, _, _, first⟩ := Step.bind_eq_ok.1 first
    obtain ⟨_, _, stop, first⟩ := Step.bind_eq_ok.1 first
    cases start
    cases stop
    cases first
    exact ⟨used, advances, by rintro ⟨⟩, by rw [if_pos rfl, advances.pos]⟩

/-- The largest size of a sequence is read where it is coded, and where nothing is. -/
theorem dimensions_yields (sequence : SequenceHeader) (sizeOverride : Bool)
    (codable : sizeOverride = true → sequence.dimensions.Codable) (pos : Nat) :
    ∃ span, Read.Yields (dimensions sequence sizeOverride) pos
      (if sizeOverride then sequence.dimensions.sizeCode else [])
      ((sequence.dimensions.maxWidth, sequence.dimensions.maxHeight), span) := by
  cases sizeOverride with
  | false => exact ⟨none, .pure _ _⟩
  | true =>
    obtain ⟨narrow, width, height, -⟩ := codable rfl
    have side {count side : Nat} (narrow : count ≤ 64) (fits : 1 ≤ side ∧ side ≤ 2 ^ count)
        (pos : Nat) : (Read.bits count).Yields pos (Bits.ofNat count (side - 1)) (side - 1) :=
      (Read.bits_decodes count).yields _ pos ⟨narrow, by omega⟩
    have size : Read.Yields (do
          let width := (← Read.bits sequence.dimensions.widthBits) + 1
          let height := (← Read.bits sequence.dimensions.heightBits) + 1
          return (width, height)) pos sequence.dimensions.sizeCode
        (sequence.dimensions.maxWidth, sequence.dimensions.maxHeight) := by
      intro rest
      rw [FrameDimensions.sizeCode, List.append_assoc,
        Step.bind_of_ok (side narrow.1 width pos _), Step.bind_of_ok (side narrow.2 height _ rest),
        Nat.sub_add_cancel width.1, Nat.sub_add_cancel height.1, List.length_append, Nat.add_assoc]
      rfl
    exact ⟨_, fun rest => Step.bind_of_ok (size.spanned rest)⟩

/-- A frame is shown at its own size where nothing else is said. -/
theorem renderSize_yields (width height pos : Nat) :
    Read.Yields (renderSize width height) pos [false] (width, height) := by
  intro rest
  rfl

/-- How a size is coded, and that another one is coded in its place. -/
theorem codedSize_sound {coded : CodedSize}
    (run : codedSize sequence sizeOverride reader = .ok coded behind) :
    ∃ size scaling render, reader.Advances (size ++ (scaling ++ render)) behind ∧
      (sizeOverride = false → size = []) ∧
      coded.sizeSpan =
        (if sizeOverride then some ⟨reader.pos, reader.pos + size.length⟩ else none) ∧
      coded.renderSpan = some ⟨reader.pos + (size ++ scaling).length, behind.pos⟩ ∧
      ∀ {dimensions : FrameDimensions} {width : Nat},
        (sizeOverride = true → dimensions.Codable) →
        FrameSize.downscaledWidth dimensions.maxWidth coded.size.superresDenom = .ok width →
        ∀ pos, ∃ sizeSpan renderSpan,
          Read.Yields (codedSize { sequence with dimensions } sizeOverride) pos
            ((if sizeOverride then dimensions.sizeCode else []) ++ (scaling ++ [false]))
            ⟨coded.size.resized dimensions width, sizeSpan, renderSpan⟩ := by
  obtain ⟨⟨_, sizeSpan⟩, _, first, run⟩ := Step.bind_eq_ok.1 run
  obtain ⟨⟨denom, _⟩, _, second, run⟩ := Step.bind_eq_ok.1 run
  obtain ⟨⟨_, renderSpan⟩, _, third, run⟩ := Step.bind_eq_ok.1 run
  cases run
  obtain ⟨size, advances, silent, rfl⟩ := dimensions_sound first
  obtain ⟨scaling, onward, scales⟩ := superres_sound second
  obtain ⟨render, last, -⟩ := (renderSize_exact _ _).spanned _ _ _ third
  obtain ⟨_, _, start, third⟩ := Step.bind_eq_ok.1 third
  obtain ⟨_, _, _, third⟩ := Step.bind_eq_ok.1 third
  obtain ⟨_, _, stop, third⟩ := Step.bind_eq_ok.1 third
  cases start
  cases stop
  cases third
  refine ⟨size, scaling, render, advances.trans (onward.trans last), silent, rfl, ?_, ?_⟩
  · rw [onward.pos, advances.pos, List.length_append, Nat.add_assoc]
  · intro dimensions width codable scaled pos
    obtain ⟨span, sized⟩ := dimensions_yields { sequence with dimensions } sizeOverride codable pos
    exact ⟨span, _, fun rest => by
      rw [List.append_assoc, codedSize, Step.bind_of_ok (sized _)]
      simp only [List.append_assoc]
      rw [Step.bind_of_ok (scales dimensions scaled _ _),
        Step.bind_of_ok ((renderSize_yields _ _ _).spanned _)]
      simp only [List.length_append, ← Nat.add_assoc]
      rfl⟩

end ReadFrame

/-! ## The whole header -/

namespace FrameHeader

/-- The bits of a header whose size is coded, in front of its tile info. -/
structure Pieces where
  front : Bits
  /-- Width and height, where they are not those of the sequence. -/
  size : Bits
  /-- What is said of super-resolution. -/
  scaling : Bits
  render : Bits
  /-- What stands between the size and the tile info. -/
  back : Bits

namespace Pieces

def bits (pieces : Pieces) : Bits :=
  pieces.front ++ (pieces.size ++ (pieces.scaling ++ (pieces.render ++ pieces.back)))

/-- The pieces of the header of a frame that is as large as `dimensions` allow, and shown at its own
    size. -/
def resized (pieces : Pieces) (sizeOverride : Bool) (dimensions : FrameDimensions) : Pieces where
  front := pieces.front
  size := if sizeOverride then dimensions.sizeCode else []
  scaling := pieces.scaling
  render := [false]
  back := pieces.back

end Pieces

/-- The spans of the size and of the render size are those of the pieces, which start at bit
    `start`. -/
structure Sized (frame : FrameHeader) (start : Nat) (pieces : Pieces) : Prop where
  silent : frame.sizeOverride = false → pieces.size = []
  size : frame.sizeSpan =
    if frame.sizeOverride then
      some ⟨start + pieces.front.length, start + pieces.front.length + pieces.size.length⟩
    else none
  render : frame.renderSpan =
    some ⟨start + pieces.front.length + (pieces.size ++ pieces.scaling).length,
      start + pieces.front.length + (pieces.size ++ (pieces.scaling ++ pieces.render)).length⟩

/-- The header cuts the frame into `layout`, whose code stands behind the pieces. -/
structure Located (frame : FrameHeader) (start : Nat) (pieces : Pieces) (layout : TileLayout) :
    Prop extends frame.Sized start pieces where
  cut : frame.layout = some layout
  layout : frame.layoutSpan =
    some ⟨start + pieces.bits.length, start + pieces.bits.length + layout.code.length⟩

/-- The frame can be as large as `dimensions` allow, with `width` in front of super-resolution and
    cut into `layout`. -/
structure Fits (sequence : SequenceHeader) (frame : FrameHeader) (dimensions : FrameDimensions)
    (width : Nat) (layout : TileLayout) : Prop where
  codable : frame.sizeOverride = true → dimensions.Codable
  scaled : FrameSize.downscaledWidth dimensions.maxWidth frame.size.superresDenom = .ok width
  alike : (dimensions.maxWidth == width) = (frame.size.upscaledWidth == frame.size.frameWidth)
  grid : SuperblockGrid.checked width dimensions.maxHeight sequence.largeSuperblocks =
    .ok layout.grid
  layout : layout.Expressible

end FrameHeader

namespace ReadFrame

variable {sequence : SequenceHeader} {header : ObuHeader} {frame : FrameKind}

/-- A size that is coded is read as one. -/
theorem size_coded {ahead : Ahead} {reader behind : BitReader} {coded : CodedSize}
    (run : size sequence ahead reader = .ok coded behind) (present : coded.renderSpan.isSome) :
    ∀ sequence, size sequence ahead = codedSize sequence ahead.sizeOverride := by
  intro other
  unfold size at run ⊢
  cases sized : ahead.inter.bind fun inter => inter.sized.map fun slot =>
      (inter.slots.get slot).size with
  | none => rfl
  | some found =>
    rw [sized] at run
    obtain ⟨_, _, _, run⟩ := Step.bind_eq_ok.1 run
    cases run
    cases present

/-- What a header with a coded size says in front of its tiles, it also says of another size. -/
theorem uncutFrame_resizes {state behind : FrameState} {uncut : FrameHeader}
    (run : uncutFrame sequence header frame state = .ok uncut behind)
    (present : uncut.renderSpan.isSome) :
    ∃ pieces, state.reader.Advances pieces.bits behind.reader ∧
      uncut.Sized state.reader.pos pieces ∧
      ∀ {dimensions : FrameDimensions} {width : Nat},
        (uncut.sizeOverride = true → dimensions.Codable) →
        FrameSize.downscaledWidth dimensions.maxWidth uncut.size.superresDenom = .ok width →
        (dimensions.maxWidth == width) = (uncut.size.upscaledWidth == uncut.size.frameWidth) →
        ∃ sizeSpan renderSpan,
          Yields (uncutFrame { sequence with dimensions } header frame) state.reader.pos
            state.slots (pieces.resized uncut.sizeOverride dimensions).bits
            { uncut with
              size := uncut.size.resized dimensions width, sizeSpan, renderSpan } behind.slots := by
  rw [uncutFrame_eq] at run
  obtain ⟨said, opening, first, run⟩ := Step.bind_eq_ok.1 run
  obtain ⟨coded, sized, second, third⟩ := Step.bind_eq_ok.1 run
  obtain ⟨-, sameSize, override, kept, back, onward, closes⟩ := behindSize_sound third
  obtain ⟨second, slots⟩ := lift_eq_ok.1 second
  have sizes := size_coded second (sameSize ▸ present)
  rw [sizes] at second
  obtain ⟨front, advances, opens⟩ := ahead_exact _ _ _ _ _ _ first
  obtain ⟨size, scaling, render, through, silent, sizeSpan, renderSpan, codes⟩ :=
    codedSize_sound second
  rw [← sameSize] at sizeSpan renderSpan codes closes
  rw [← override] at silent sizeSpan codes
  refine ⟨⟨front, size, scaling, render, back⟩, ?_, ⟨silent, ?_, ?_⟩, ?_⟩
  · simpa only [FrameHeader.Pieces.bits, List.append_assoc] using
      advances.trans (through.trans onward)
  · simp only [sizeSpan, advances.pos]
  · simp only [renderSpan, through.pos, advances.pos]
  · intro dimensions width codable scaled alike
    obtain ⟨otherSize, otherRender, coding⟩ := codes codable scaled (state.reader.pos + front.length)
    have ends := closes ⟨uncut.size.resized dimensions width, otherSize, otherRender⟩
    rw [slots] at ends kept
    rw [kept]
    have bits : (FrameHeader.Pieces.resized ⟨front, size, scaling, render, back⟩
        uncut.sizeOverride dimensions).bits =
        front ++ (((if uncut.sizeOverride then dimensions.sizeCode else []) ++
          (scaling ++ [false])) ++ back) := by
      simp only [FrameHeader.Pieces.bits, FrameHeader.Pieces.resized, List.append_assoc]
    refine ⟨otherSize, otherRender, ?_⟩
    rw [bits, uncutFrame_eq]
    refine Yields.bind opens (.bind (.lift ?_ opening.slots) (ends _ alike))
    rw [sizes, ← override]
    exact coding

/-- Where a header with a coded size is read, it is also read with another size in the place of its
    own. -/
theorem newFrame_resizes {state behind : FrameState} {found : FrameHeader}
    (run : newFrame sequence header frame state = .ok found behind)
    (present : found.renderSpan.isSome) :
    ∃ pieces own, own.grid.Narrow ∧ own.Expressible ∧
      state.reader.Advances (pieces.bits ++ own.code) behind.reader ∧
      found.Located state.reader.pos pieces own ∧
      ∀ {dimensions : FrameDimensions} {width : Nat} {layout : TileLayout},
        found.Fits sequence dimensions width layout → ∃ sizeSpan renderSpan,
          Yields (newFrame { sequence with dimensions } header frame) state.reader.pos state.slots
            ((pieces.resized found.sizeOverride dimensions).bits ++ layout.code)
            (FrameHeader.recut
              { found with size := found.size.resized dimensions width, sizeSpan, renderSpan }
              (state.reader.pos + (pieces.resized found.sizeOverride dimensions).bits.length) layout)
            behind.slots := by
  obtain ⟨uncut, between, first, run⟩ := Step.bind_eq_ok.1 run
  obtain ⟨⟨own, span⟩, last, read, run⟩ := Step.bind_eq_ok.1 run
  cases run
  obtain ⟨pieces, advances, sized, others⟩ := uncutFrame_resizes first present
  obtain ⟨read, slots⟩ := lift_eq_ok.1 read
  obtain ⟨narrow, expressible, cut, rfl, -⟩ := tileInfo_recut read
  refine ⟨pieces, own, narrow, expressible, advances.trans cut, ?_, ?_⟩
  · exact ⟨⟨sized.silent, sized.size, sized.render⟩, rfl, by simp only [advances.pos]⟩
  · intro dimensions width layout fits
    obtain ⟨sizeSpan, renderSpan, uncut'⟩ := others fits.codable fits.scaled fits.alike
    generalize (pieces.resized uncut.sizeOverride dimensions).bits = bits at uncut' ⊢
    have tiles := @tileInfo_yields { sequence with dimensions }
      (uncut.size.resized dimensions width) layout fits.grid fits.layout
      (state.reader.pos + bits.length)
    refine ⟨sizeSpan, renderSpan, fun rest => ?_⟩
    rw [List.append_assoc, newFrame, Step.bind_of_ok (uncut' _),
      Step.bind_of_ok (Yields.lift tiles between.slots rest), slots, List.length_append,
      ← Nat.add_assoc]
    rfl

theorem size_downscaled {ahead : Ahead} {coded : CodedSize}
    (run : size sequence ahead reader = .ok coded behind) :
    FrameSize.downscaledWidth coded.size.upscaledWidth coded.size.superresDenom =
      .ok coded.size.frameWidth := by
  unfold size at run
  cases taken : ahead.inter.bind fun inter => inter.sized.map fun slot =>
      (inter.slots.get slot).size with
  | none =>
    rw [taken] at run
    obtain ⟨_, _, -, run⟩ := Step.bind_eq_ok.1 run
    obtain ⟨_, _, scaled, run⟩ := Step.bind_eq_ok.1 run
    obtain ⟨_, _, -, run⟩ := Step.bind_eq_ok.1 run
    cases run
    exact superres_downscaled scaled
  | some size =>
    rw [taken] at run
    obtain ⟨_, _, scaled, run⟩ := Step.bind_eq_ok.1 run
    cases run
    exact superres_downscaled scaled

/-- Which part of a header its size is. -/
theorem newFrame_sized {state behind : FrameState} {found : FrameHeader}
    (run : newFrame sequence header frame state = .ok found behind) :
    ∃ said opening last, ahead sequence header frame state = .ok said opening ∧
      size sequence said opening.reader = .ok found.toCodedSize last ∧
      found.sizeOverride = said.sizeOverride := by
  rw [newFrame, uncutFrame_eq] at run
  obtain ⟨uncut, _, first, run⟩ := Step.bind_eq_ok.1 run
  obtain ⟨_, _, -, run⟩ := Step.bind_eq_ok.1 run
  cases run
  obtain ⟨said, opening, ahead, first⟩ := Step.bind_eq_ok.1 first
  obtain ⟨coded, sized, second, third⟩ := Step.bind_eq_ok.1 first
  obtain ⟨-, rfl, override, -⟩ := behindSize_sound third
  exact ⟨said, opening, sized.reader, ahead, (lift_eq_ok.1 second).1, override⟩

/-- The width of a frame is what super-resolution scales up. -/
theorem newFrame_downscaled {state behind : FrameState} {found : FrameHeader}
    (run : newFrame sequence header frame state = .ok found behind) :
    FrameSize.downscaledWidth found.size.upscaledWidth found.size.superresDenom =
      .ok found.size.frameWidth := by
  obtain ⟨_, _, _, -, sized, -⟩ := newFrame_sized run
  exact size_downscaled sized

/-- The size of an intra frame is coded. -/
theorem newFrame_coded {state behind : FrameState} {found : FrameHeader}
    (intra : frame.type.isIntra = true)
    (run : newFrame sequence header frame state = .ok found behind) : found.renderSpan.isSome := by
  obtain ⟨said, _, _, opens, sized, -⟩ := newFrame_sized run
  obtain ⟨-, none⟩ := ahead_intra intra opens
  rw [size, none] at sized
  obtain ⟨_, _, _, -, -, -, span, -⟩ := codedSize_sound sized
  rw [span]
  rfl

/-- A size that a frame says for itself has at most 64 bits a side. -/
theorem newFrame_narrow {state behind : FrameState} {found : FrameHeader}
    (run : newFrame sequence header frame state = .ok found behind)
    (present : found.renderSpan.isSome) (override : found.sizeOverride = true) :
    sequence.dimensions.widthBits ≤ 64 ∧ sequence.dimensions.heightBits ≤ 64 := by
  obtain ⟨said, opening, _, -, sized, same⟩ := newFrame_sized run
  rw [size_coded sized present sequence, ← same, override] at sized
  obtain ⟨_, _, first, -⟩ := Step.bind_eq_ok.1 sized
  obtain ⟨_, _, first, -⟩ := Step.bind_eq_ok.1 first
  obtain ⟨_, _, -, first⟩ := Step.bind_eq_ok.1 first
  obtain ⟨_, _, first, -⟩ := Step.bind_eq_ok.1 first
  obtain ⟨_, _, width, first⟩ := Step.bind_eq_ok.1 first
  obtain ⟨_, _, height, -⟩ := Step.bind_eq_ok.1 first
  exact ⟨((Read.bits_decodes _).sound width).1.1, ((Read.bits_decodes _).sound height).1.1⟩

end ReadFrame

namespace FrameHeader

variable {sequence : SequenceHeader} {header : ObuHeader} {payload : Bytes}
  {slots kept : RefSlots} {frame : FrameHeader}

/-- The pieces of a header behind some bits in front of it. -/
theorem Located.behind {pieces : Pieces} {layout : TileLayout} {front : Bits}
    (located : frame.Located front.length pieces layout) :
    frame.Located 0 { pieces with front := front ++ pieces.front } layout := by
  refine ⟨⟨located.silent, ?_, ?_⟩, located.cut, ?_⟩
  · simpa only [List.length_append, Nat.zero_add] using located.size
  · simpa only [List.length_append, Nat.zero_add] using located.render
  · simpa only [Pieces.bits, List.append_assoc, List.length_append, Nat.zero_add,
      Nat.add_assoc] using located.layout

/-- The size of an intra frame is coded. -/
theorem parse_coded (parsed : parse sequence header payload slots = .ok frame kept)
    (own : frame.showExisting = false) (intra : frame.type.isIntra = true) :
    frame.renderSpan.isSome := by
  obtain ⟨_, _, -, new, -⟩ := parse_brings parsed own
  exact ReadFrame.newFrame_coded intra new

/-- The width of a frame is what super-resolution scales up. -/
theorem parse_downscaled (parsed : parse sequence header payload slots = .ok frame kept)
    (own : frame.showExisting = false) :
    FrameSize.downscaledWidth frame.size.upscaledWidth frame.size.superresDenom =
      .ok frame.size.frameWidth := by
  obtain ⟨_, _, -, new, -⟩ := parse_brings parsed own
  exact ReadFrame.newFrame_downscaled new

/-- A size that a frame says for itself has at most 64 bits a side. -/
theorem parse_narrow (parsed : parse sequence header payload slots = .ok frame kept)
    (own : frame.showExisting = false) (present : frame.renderSpan.isSome)
    (override : frame.sizeOverride = true) :
    sequence.dimensions.widthBits ≤ 64 ∧ sequence.dimensions.heightBits ≤ 64 := by
  obtain ⟨_, _, -, new, -⟩ := parse_brings parsed own
  exact ReadFrame.newFrame_narrow new present override

/-- Without super-resolution a frame can be as large as any dimensions allow. -/
theorem fits_of_unscaled {dimensions : FrameDimensions} {layout : TileLayout}
    (parsed : parse sequence header payload slots = .ok frame kept)
    (own : frame.showExisting = false)
    (unscaled : frame.size.superresDenom = FrameSize.superresNum)
    (codable : frame.sizeOverride = true → dimensions.Codable)
    (small : dimensions.maxWidth ≤ FrameDimensions.maxDimension)
    (grid : SuperblockGrid.checked dimensions.maxWidth dimensions.maxHeight
      sequence.largeSuperblocks = .ok layout.grid)
    (expressible : layout.Expressible) :
    frame.Fits sequence dimensions dimensions.maxWidth layout := by
  have scaled := parse_downscaled parsed own
  rw [unscaled] at scaled
  rw [FrameDimensions.maxDimension] at small
  refine ⟨codable, ?_, ?_, grid, expressible⟩
  · rw [unscaled, FrameSize.downscaledWidth_unscaled, FrameSize.superresNum]
    exact ⟨by omega, rfl⟩
  · rw [(FrameSize.downscaledWidth_unscaled.1 scaled).2, beq_self_eq_true, beq_self_eq_true]

/-- What is known of a frame header that was read with a coded size: where its pieces are, and that
    the pieces of another size and the code of another layout are read in their place. -/
theorem parse_pieces (parsed : parse sequence header payload slots = .ok frame kept)
    (own : frame.showExisting = false) (present : frame.renderSpan.isSome) :
    ∃ pieces current rest, current.grid.Narrow ∧ current.Expressible ∧
      Bits.ofBytes payload = pieces.bits ++ current.code ++ rest ∧
      frame.Located 0 pieces current ∧
      ∀ {dimensions : FrameDimensions} {width : Nat} {layout : TileLayout},
        frame.Fits sequence dimensions width layout → ∃ sizeSpan renderSpan,
          ∀ (output : Bytes) (rest' : Bits), Bits.ofBytes output =
              (pieces.resized frame.sizeOverride dimensions).bits ++ (layout.code ++ rest') →
            parse { sequence with dimensions } header output slots = .ok
              (recut
                { frame with size := frame.size.resized dimensions width, sizeSpan, renderSpan }
                (pieces.resized frame.sizeOverride dimensions).bits.length layout) kept := by
  obtain ⟨reader, behind, read, new, rfl⟩ := parse_brings parsed own
  obtain ⟨front, advances, brings⟩ := ReadFrame.brought_movable sequence _ _ _ read
  obtain ⟨pieces, current, narrow, expressible, onward, located, others⟩ :=
    ReadFrame.newFrame_resizes new present
  have start : reader.pos = front.length := advances.pos.trans (Nat.zero_add _)
  rw [start] at located
  refine ⟨_, current, behind.reader.rest, narrow, expressible, ?_, located.behind, ?_⟩
  · simpa only [BitReader.ofBytes, Pieces.bits, List.append_assoc] using
      (advances.trans onward).rest
  · intro dimensions width layout fits
    obtain ⟨sizeSpan, renderSpan, yields⟩ := others fits
    refine ⟨sizeSpan, renderSpan, fun output rest bits => ?_⟩
    have whole : ({ pieces with front := front ++ pieces.front }.resized frame.sizeOverride
        dimensions).bits = front ++ (pieces.resized frame.sizeOverride dimensions).bits := by
      simp only [Pieces.bits, Pieces.resized, List.append_assoc]
    have split : Bits.ofBytes output =
        front ++ ((pieces.resized frame.sizeOverride dimensions).bits ++ layout.code ++ rest) := by
      simpa only [whole, List.append_assoc] using bits
    have begins := brings 0 ((pieces.resized frame.sizeOverride dimensions).bits ++
      layout.code ++ rest)
    have same : ReadFrame.brought { sequence with dimensions } = ReadFrame.brought sequence := rfl
    rw [← split, Nat.zero_add, ← start, ← same] at begins
    have again := parse_of_brought begins (yields rest)
    rw [whole, List.length_append, ← start]
    exact again

/-! ## Writing -/

theorem writeSize_appends {target : SequenceHeader} (codable : target.dimensions.Codable) :
    Write.Appends (writeSize target) target.dimensions.sizeCode () := by
  obtain ⟨narrow, width, height, small⟩ := codable
  rw [FrameDimensions.maxDimension] at small
  have first := Field.bits_write_appends_of_word "frame_width_minus_1" narrow.1
    (by omega : target.dimensions.maxWidth - 1 < 2 ^ target.dimensions.widthBits) (by omega)
  have second := Field.bits_write_appends_of_word "frame_height_minus_1" narrow.2
    (by omega : target.dimensions.maxHeight - 1 < 2 ^ target.dimensions.heightBits) (by omega)
  exact first.bind second

/-- An element is replaced behind the bits in front of it, from the last one that was replaced on. -/
theorem replace_appends {before between own rest code : Bits} {start : Nat} {span : BitSpan}
    {element : Write Unit} (bits : Bits.ofBytes payload = before ++ (between ++ (own ++ rest)))
    (first : start = before.length)
    (place : span = ⟨(before ++ between).length, (before ++ (between ++ own)).length⟩)
    (written : Write.Appends element code ()) :
    Write.Appends (replace payload start (some span) element) (between ++ code)
      (before ++ (between ++ own)).length := by
  have total : 8 * payload.length = (before ++ (between ++ (own ++ rest))).length := by
    rw [← bits, Bits.length_ofBytes]
  subst first place
  simp only [List.length_append] at total
  have copied : (⟨before.length, (before ++ between).length⟩ : BitSpan).of payload = between := by
    rw [List.length_append]
    have split : Bits.ofBytes payload = before ++ between ++ (own ++ rest) := by
      rw [bits, List.append_assoc]
    exact of_between split
  have copy := Write.copy_appends
    (by rw [List.length_append]; omega : before.length ≤ (before ++ between).length)
    (by rw [List.length_append]; omega : (before ++ between).length ≤ 8 * payload.length)
  rw [copied] at copy
  exact copy.bind (written.map fun _ => _)

variable {pieces : Pieces} {current : TileLayout} {rest : Bits}

/-- What is written in the place of the size and the render size, and of what stands in front. -/
theorem writeResized_appends {target : SequenceHeader} (sized : frame.Sized 0 pieces)
    (bits : Bits.ofBytes payload = pieces.bits ++ rest)
    (codable : frame.sizeOverride = true → target.dimensions.Codable) :
    Write.Appends (frame.writeResized payload target)
      (pieces.front ++ ((if frame.sizeOverride then target.dimensions.sizeCode else []) ++
        (pieces.scaling ++ [false])))
      (pieces.front ++ (pieces.size ++ (pieces.scaling ++ pieces.render))).length := by
  simp only [Pieces.bits, List.append_assoc] at bits
  have render := Write.bit_appends false
  rw [writeResized, sized.render, sized.size]
  cases override : frame.sizeOverride with
  | true =>
    have behind : Bits.ofBytes payload = pieces.front ++ pieces.size ++
        (pieces.scaling ++ (pieces.render ++ (pieces.back ++ rest))) := by
      rw [bits, List.append_assoc]
    have first : Write.Appends (replace payload 0
        (some ⟨0 + pieces.front.length, 0 + pieces.front.length + pieces.size.length⟩)
        (writeSize target)) (pieces.front ++ target.dimensions.sizeCode)
        ([] ++ (pieces.front ++ pieces.size)).length :=
      replace_appends bits rfl (by simp) (writeSize_appends (codable override))
    have second : Write.Appends (replace payload ([] ++ (pieces.front ++ pieces.size)).length
        (some ⟨0 + pieces.front.length + (pieces.size ++ pieces.scaling).length,
          0 + pieces.front.length + (pieces.size ++ (pieces.scaling ++ pieces.render)).length⟩)
        (Write.bit false)) (pieces.scaling ++ [false])
        (pieces.front ++ pieces.size ++ (pieces.scaling ++ pieces.render)).length :=
      replace_appends behind rfl (by simp) render
    rw [List.append_assoc] at second
    simpa only [if_true, List.append_assoc] using first.bind second
  | false =>
    rw [sized.silent override] at bits ⊢
    have behind : Bits.ofBytes payload = [] ++ (pieces.front ++ pieces.scaling ++
        (pieces.render ++ (pieces.back ++ rest))) := by
      simpa only [List.nil_append, List.append_assoc] using bits
    have second : Write.Appends (replace payload 0
        (some ⟨0 + pieces.front.length + ([] ++ pieces.scaling).length,
          0 + pieces.front.length + ([] ++ (pieces.scaling ++ pieces.render)).length⟩)
        (Write.bit false)) (pieces.front ++ pieces.scaling ++ [false])
        ([] ++ (pieces.front ++ pieces.scaling ++ pieces.render)).length :=
      replace_appends behind rfl (by simp) render
    simp only [List.nil_append, List.append_assoc] at second ⊢
    exact (Write.Appends.pure 0).bind second

/-- What is written of a header for another size and another layout. -/
theorem writeRewritten_resized {target : SequenceHeader} {layout : TileLayout} {stop : Nat}
    (located : frame.Located 0 pieces current)
    (bits : Bits.ofBytes payload = pieces.bits ++ current.code ++ rest)
    (closed : TrailingBit.position payload = .ok stop)
    (inside : (pieces.bits ++ current.code).length ≤ stop)
    (codable : frame.sizeOverride = true → target.dimensions.Codable)
    (written : Write.Appends layout.write layout.code ()) :
    Write.Appends (frame.writeRewritten payload (some target) layout)
      ((pieces.resized frame.sizeOverride target.dimensions).bits ++ (layout.code ++
        (⟨(pieces.bits ++ current.code).length, stop⟩ : BitSpan).of payload)) () := by
  have bound := TrailingBit.position_lt closed
  have total : 8 * payload.length = (pieces.bits ++ current.code).length + rest.length := by
    rw [← Bits.length_ofBytes, bits, List.length_append]
  have code : (⟨pieces.bits.length, pieces.bits.length + current.code.length⟩ : BitSpan).of
      payload = current.code := of_between bits
  have front := (writeResized_appends located.toSized (List.append_assoc .. ▸ bits) codable).emit
  have back : (⟨(pieces.front ++ (pieces.size ++ (pieces.scaling ++ pieces.render))).length,
      pieces.bits.length⟩ : BitSpan).of payload = pieces.back := by
    have length : pieces.bits.length =
        (pieces.front ++ (pieces.size ++ (pieces.scaling ++ pieces.render))).length +
          pieces.back.length := by
      simp only [Pieces.bits, ← List.length_append, List.append_assoc]
    have split : Bits.ofBytes payload =
        pieces.front ++ (pieces.size ++ (pieces.scaling ++ pieces.render)) ++ pieces.back ++
          (current.code ++ rest) := by
      simpa only [Pieces.bits, List.append_assoc] using bits
    rw [length]
    exact of_between split
  rw [List.length_append] at inside total ⊢
  have copied := (Write.copy_appends
    (by simp only [Pieces.bits, List.length_append]; omega :
      (pieces.front ++ (pieces.size ++ (pieces.scaling ++ pieces.render))).length ≤
        pieces.bits.length) (by omega : pieces.bits.length ≤ 8 * payload.length)).emit
  have own := (Write.copy_appends (Nat.le_add_right pieces.bits.length current.code.length)
    (by omega : _ ≤ 8 * payload.length)).emit
  have last := (Write.copy_appends inside (by omega : stop ≤ 8 * payload.length)).emit
  have short : ¬stop < pieces.bits.length + current.code.length := by omega
  rw [back] at copied
  rw [code] at own
  rw [writeRewritten, Emit.lift_bind closed, located.layout]
  simp only [Nat.zero_add, short, if_false]
  have content : (pieces.resized frame.sizeOverride target.dimensions).bits =
      pieces.front ++ ((if frame.sizeOverride then target.dimensions.sizeCode else []) ++
        (pieces.scaling ++ [false])) ++ pieces.back := by
    simp only [Pieces.bits, Pieces.resized, List.append_assoc]
  rw [content, List.append_assoc]
  refine front.bind (copied.bind ?_)
  split
  next unchanged =>
    obtain rfl := Option.some.inj (located.cut.symm.trans unchanged)
    exact own.bind last
  next => exact written.emit.bind last

/-! ## Reading again -/

/-- A header that is written for another size and another layout has the bits behind its tile info
    also behind the tile info of that layout. With a sequence header of the size it is read as the
    header with that size and layout. -/
theorem writeRewritten_resizes {dimensions : FrameDimensions} {width stop : Nat}
    {layout : TileLayout} (parsed : parse sequence header payload slots = .ok frame kept)
    (own : frame.showExisting = false) (present : frame.renderSpan.isSome)
    (closed : TrailingBit.position payload = .ok stop)
    (inside : ∀ span, frame.layoutSpan = some span → span.stop ≤ stop)
    (fits : frame.Fits sequence dimensions width layout) :
    ∃ span ahead, frame.layoutSpan = some span ∧
      Write.Appends layout.write layout.code () ∧
      Write.Appends (frame.writeRewritten payload (some { sequence with dimensions }) layout)
        (ahead ++ (layout.code ++ (⟨span.stop, stop⟩ : BitSpan).of payload)) () ∧
      ∃ sizeSpan renderSpan, ∀ (output : Bytes) (rest : Bits),
        Bits.ofBytes output =
            ahead ++ (layout.code ++ (⟨span.stop, stop⟩ : BitSpan).of payload) ++ rest →
          parse { sequence with dimensions } header output slots = .ok
            (recut { frame with size := frame.size.resized dimensions width, sizeSpan, renderSpan }
              ahead.length layout) kept := by
  obtain ⟨pieces, current, rest, -, -, bits, located, others⟩ := parse_pieces parsed own present
  obtain ⟨sizeSpan, renderSpan, reads⟩ := others fits
  have before := inside _ located.layout
  rw [Nat.zero_add, ← List.length_append] at before
  have code : Write.Appends layout.write layout.code () :=
    TileLayout.write_appends (SuperblockGrid.checked_sound fits.grid) fits.layout
  have written : Write.Appends (frame.writeRewritten payload (some { sequence with dimensions })
      layout) _ () := writeRewritten_resized located bits closed before fits.codable code
  rw [List.length_append] at written
  refine ⟨_, (pieces.resized frame.sizeOverride dimensions).bits, located.layout, code, ?_,
    sizeSpan, renderSpan, fun output rest total => ?_⟩
  · rw [Nat.zero_add]
    exact written
  · rw [List.append_assoc, List.append_assoc] at total
    exact reads output _ total

/-- A header that is written for another layout of its grid is read, in an OBU of the same layers,
    as the header with that layout. -/
theorem writeRewritten_recuts {stop : Nat} {layout : TileLayout}
    (parsed : parse sequence header payload slots = .ok frame kept)
    (own : frame.showExisting = false) (closed : TrailingBit.position payload = .ok stop)
    (inside : ∀ span, frame.layoutSpan = some span → span.stop ≤ stop)
    (same : ∀ current, frame.layout = some current → layout.grid = current.grid)
    (expressible : layout.Expressible) :
    ∃ content, Write.Appends (frame.writeRewritten payload none layout) content () ∧
      ∀ (place : ObuHeader) {again : ObuHeader}, again.extension = header.extension →
        ∀ (output : Bytes) (rest : Bits), Bits.ofBytes output = content ++ rest →
          ∃ layoutSpan, parse { sequence with header := place } again output slots = .ok
            { frame with header := again, layout := some layout, layoutSpan } kept := by
  obtain ⟨front, rest, current, narrow, -, bits, found, others⟩ := parse_recut parsed own
  have located : frame.layoutSpan =
      some ⟨front.length, front.length + current.code.length⟩ := congrArg layoutSpan found
  have cut : frame.layout = some current := congrArg FrameHeader.layout found
  have sameGrid := same current cut
  have code : frame.layout = some layout → layout.code =
      (⟨front.length, front.length + current.code.length⟩ : BitSpan).of payload := by
    intro unchanged
    obtain rfl := Option.some.inj (unchanged.symm.trans cut)
    exact (of_between bits).symm
  refine ⟨_, writeRewritten_appends located closed (inside _ located) (Nat.le_add_right ..)
    (TileLayout.write_appends (sameGrid ▸ narrow) expressible) code, ?_⟩
  intro place again layers output rest total
  rw [List.append_assoc] at bits
  rw [spliced, of_front bits, List.append_assoc] at total
  exact ⟨_, parse_again place layers (others layout sameGrid expressible output _ total) own⟩

end FrameHeader

end Av1Tiling
