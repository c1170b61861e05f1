import Av1Tiling.Proofs.Frame.Growth
import Av1Tiling.Proofs.Frame.Resizing
import Av1Tiling.Proofs.Frame.Widening

/-!
# Frame headers for another frame size

A frame that says its size, and uses no super-resolution, is given any other legal size and any
layout of that size. Closed and filled up, its header is read with the sequence header of that size
as the same header with the new size and the new layout.
-/

namespace Av1Tiling

open Write

/-- A frame of any legal size has a grid. -/
theorem SuperblockGrid.checked_eq_ok {width height : Nat} (wide : IsSide width)
    (high : IsSide height) (large : Bool) :
    checked width height large = .ok ⟨width, height, large⟩ := by
  have inRange : (⟨width, height, large⟩ : SuperblockGrid).InRange := ⟨wide, high⟩
  exact inRange.checked

/-- The header of the same sequence with frames of another size. -/
theorem SequenceHeader.withDimensions_eq_ok {sequence target : SequenceHeader} {width height : Nat}
    (resized : sequence.withDimensions width height = .ok target) :
    ∃ dimensions, sequence.dimensions.resize width height = .ok dimensions ∧
      target = { sequence with dimensions } ∧ dimensions.maxWidth = width ∧
      dimensions.maxHeight = height := by
  obtain ⟨dimensions, success, found⟩ := Checked.bind_eq_ok.1 resized
  cases found
  obtain ⟨widthBits, -, last⟩ := Checked.bind_eq_ok.1 success
  obtain ⟨heightBits, -, last⟩ := Checked.bind_eq_ok.1 last
  cases last
  exact ⟨_, success, rfl, rfl, rfl⟩

namespace FrameHeader

/-- What `payload` of the header `frame` was written again as for a layout: the content that this
    has added, in which the layout is read in the place of the tile info, and what closes it. -/
structure Rewritten (frame : FrameHeader) (payload : Bytes)
    (target : Option SequenceHeader) (layout : TileLayout) (output : Bytes) : Prop where
  content : ∃ front code back rest behind,
    AddedBy (frame.writeRewritten payload target layout) (front ++ (code ++ back)) ∧
    Bits.ofBytes output = front ++ (code ++ back) ++ rest ∧
    TileLayout.read layout.grid ⟨front.length, code ++ (back ++ rest)⟩ = .ok layout behind

/-- A header that is written again for a layout has the code of the layout in it. -/
theorem writeRewritten_carries {sequence : SequenceHeader} {header : ObuHeader}
    {payload : Bytes} {slots kept : RefSlots} {frame : FrameHeader} {target : Option SequenceHeader}
    {layout : TileLayout} (parsed : parse sequence header payload slots = .ok frame kept)
    (own : frame.showExisting = false) (narrow : layout.grid.Narrow)
    (expressible : layout.Expressible) :
    Grows (frame.writeRewritten payload target layout) fun content =>
      ∃ front back, content = front ++ (layout.code ++ back) := by
  obtain ⟨front, rest, current, -, -, bits, same, -⟩ := parse_recut parsed own
  have located : frame.layoutSpan =
      some ⟨front.length, front.length + current.code.length⟩ := congrArg layoutSpan same
  have cut : frame.layout = some current := congrArg FrameHeader.layout same
  have size := congrArg List.length bits
  rw [Bits.length_ofBytes, List.length_append, List.length_append] at size
  -- the tile info is copied where the layout is the header's own, and written anew elsewhere
  have ownCode : current = layout → Grows (Write.copy payload front.length
      (front.length + current.code.length)) (· = layout.code) := by
    rintro rfl
    have inside : front.length + current.code.length ≤ 8 * payload.length := by omega
    have copied := Write.copy_appends (Nat.le_add_right front.length current.code.length) inside
    rw [of_between bits] at copied
    exact copied.grows (copy_widens _ _ _) (copy_grows _ _ _)
  have code : Grows layout.write (· = layout.code) :=
    (TileLayout.write_appends narrow expressible).grows layout.write_widens layout.write_grows
  have behind (stop : Nat) : Grows (do
      if frame.layout = some layout then
        Write.copy payload front.length (front.length + current.code.length)
      else
        layout.write
      Write.copy payload (front.length + current.code.length) stop : Emit Unit)
      fun bits => ∃ back, bits = layout.code ++ back := by
    refine .ite (fun unchanged => ?_) fun _ => ?_
    · have unchanged := Option.some.inj (cut.symm.trans unchanged)
      refine ((ownCode unchanged).emit.bind fun _ _ _ _ => (copy_grows _ _ _).emit).mono ?_
      rintro bits ⟨_, back, rfl, -, rfl⟩
      exact ⟨back, rfl⟩
    · refine (code.emit.bind fun _ _ _ _ => (copy_grows _ _ _).emit).mono ?_
      rintro bits ⟨_, back, rfl, -, rfl⟩
      exact ⟨back, rfl⟩
  have fromNext (stop next : Nat) := (copy_grows payload next front.length).emit.bind
    fun _ _ _ _ => behind stop
  rw [writeRewritten, located]
  refine Grows.stays_bind (fun _ _ _ run => (Emit.lift_eq_ok.1 run).2) fun _ stop _ _ => ?_
  refine .ite (fun _ => .throw_bind _ _) fun _ => ?_
  cases target with
  | none =>
    refine (((Grows.pure 0).bind fun _ next _ _ => fromNext stop next)).mono ?_
    rintro bits ⟨u, _, -, ⟨v, _, -, ⟨back, rfl⟩, rfl⟩, rfl⟩
    exact ⟨u ++ v, back, by simp only [List.append_assoc]⟩
  | some target =>
    refine ((frame.writeResized_grows payload target).emit.bind fun _ next _ _ =>
      fromNext stop next).mono ?_
    rintro bits ⟨u, _, -, ⟨v, _, -, ⟨back, rfl⟩, rfl⟩, rfl⟩
    exact ⟨u ++ v, back, by simp only [List.append_assoc]⟩

/-- A header that is rewritten for another size and a layout of that size, closed and filled up is
    read over the same slots as the same header with that size and layout, and leaves the same
    slots. Behind the tile info it has the bits of the payload. -/
theorem writeRewritten_parses_resized {sequence : SequenceHeader} {header : ObuHeader}
    {payload : Bytes} {slots kept : RefSlots} {frame : FrameHeader} {stop : Nat}
    (parsed : parse sequence header payload slots = .ok frame kept)
    (own : frame.showExisting = false) (present : frame.renderSpan.isSome)
    (unscaled : frame.size.superresDenom = FrameSize.superresNum)
    (closed : TrailingBit.position payload = .ok stop)
    (inside : ∀ span, frame.layoutSpan = some span → span.stop ≤ stop) :
    ∀ width height, 1 ≤ width → width ≤ FrameDimensions.maxDimension →
      1 ≤ height → height ≤ FrameDimensions.maxDimension →
      ∃ target, sequence.withDimensions width height = .ok target ∧
        ∀ layout, Offered ⟨width, height, sequence.largeSuperblocks⟩ layout →
          ∃ span ahead coded content, frame.layoutSpan = some span ∧
            Write.Appends layout.write coded () ∧
            content = ahead ++ (coded ++ (⟨span.stop, stop⟩ : BitSpan).of payload) ∧
            ∀ capacity, content.length < 8 * capacity →
              ∃ output behind sizeSpan renderSpan,
                (do frame.writeRewritten payload (some target) layout
                    Emit.trailingBits; Emit.finish) (BitWriter.empty capacity) =
                  .ok output behind ∧
                Bits.ofBytes output = content ++ Emit.closing content.length ∧
                parse target header output slots = .ok
                  { frame with
                    size := {
                      upscaledWidth := width, frameWidth := width, frameHeight := height
                      renderWidth := width, renderHeight := height
                      superresDenom := frame.size.superresDenom }
                    sizeSpan, renderSpan
                    layout := some layout
                    layoutSpan := some ⟨ahead.length, ahead.length + coded.length⟩ } kept := by
  intro width height least most least' most'
  obtain ⟨target, resized⟩ := sequence.withDimensions_gives ⟨least, most⟩ ⟨least', most'⟩
  refine ⟨target, resized, fun layout offered => ?_⟩
  obtain ⟨dimensions, success, rfl, rfl, rfl⟩ := SequenceHeader.withDimensions_eq_ok resized
  have grid := SuperblockGrid.checked_eq_ok ⟨least, most⟩ ⟨least', most'⟩ sequence.largeSuperblocks
  obtain ⟨same, expressible⟩ := offered.expressible (SuperblockGrid.checked_sound grid)
  have codable (override : frame.sizeOverride = true) : dimensions.Codable :=
    FrameDimensions.resize_codable (parse_narrow parsed own present override) success
  have fits : frame.Fits sequence dimensions dimensions.maxWidth layout :=
    fits_of_unscaled parsed own unscaled codable most (by rw [same]; exact grid) expressible
  obtain ⟨span, ahead, located, code, appends, sizeSpan, renderSpan, reads⟩ :=
    writeRewritten_resizes parsed own present closed inside fits
  refine ⟨span, ahead, _, _, located, code, rfl, fun capacity room => ?_⟩
  obtain ⟨output, behind, run, total⟩ := Emit.finish_closed appends room
  exact ⟨output, behind, sizeSpan, renderSpan, run, total, reads output _ total⟩

/-- A still picture of 128 by 128 samples is rewritten for 256 by 64 samples in two tile columns. -/
theorem writeRewritten_parses_wider :
    ∃ sequence target last frame kept layout output sizeSpan renderSpan layoutSpan,
      SequenceHeader.parse ⟨.sequenceHeader, none, none⟩ [0x18, 0x19, 0xBF, 0xFF, 0x00, 0x02] =
        .ok sequence last ∧
      parse sequence ⟨.frameHeader, none, none⟩ [0x12] .empty = .ok frame kept ∧
      (frame.size.upscaledWidth, frame.size.frameHeight) = (128, 128) ∧
      sequence.withDimensions 256 64 = .ok target ∧
      TileLayout.ofSuperblockStarts ⟨256, 64, false⟩ [0, 2] [0] = .ok layout ∧
      parse target ⟨.frameHeader, none, none⟩ output .empty = .ok
        { frame with
          size := {
            upscaledWidth := 256, frameWidth := 256, frameHeight := 64
            renderWidth := 256, renderHeight := 64, superresDenom := frame.size.superresDenom }
          sizeSpan, renderSpan, layout := some layout, layoutSpan } kept := by
  have facts : Step.Succeeds (fun sequence _ => sequence.largeSuperblocks = false ∧
      Step.Succeeds (fun frame _ => frame.showExisting = false ∧
        frame.layoutSpan = some ⟨3, 6⟩ ∧ frame.renderSpan.isSome = true ∧
        frame.size.superresDenom = FrameSize.superresNum ∧
        (frame.size.upscaledWidth, frame.size.frameHeight) = (128, 128))
        (parse sequence ⟨.frameHeader, none, none⟩ [0x12] .empty))
      (SequenceHeader.parse ⟨.sequenceHeader, none, none⟩
        [0x18, 0x19, 0xBF, 0xFF, 0x00, 0x02]) := by
    decide +kernel
  obtain ⟨sequence, last, first, small, facts⟩ := facts.eq_ok
  obtain ⟨frame, kept, second, own, located, present, unscaled, size⟩ := facts.eq_ok
  have inside (span : BitSpan) (found : frame.layoutSpan = some span) : span.stop ≤ 6 := by
    rw [located] at found
    cases found
    decide
  obtain ⟨target, resized, offered⟩ := writeRewritten_parses_resized second own present unscaled
    (by decide +kernel : TrailingBit.position [0x12] = .ok 6) inside 256 64
    (by decide) (by decide) (by decide) (by decide)
  obtain ⟨layout, success⟩ : ∃ layout,
      TileLayout.ofSuperblockStarts ⟨256, 64, false⟩ [0, 2] [0] = .ok layout :=
    ⟨{ grid := ⟨256, 64, false⟩, uniform := true, colsLog2 := 1, rowsLog2 := 0
       colStarts := [0, 2, 4], rowStarts := [0, 1], contextTile := 0
       tileSizeBytes := 4 }, by decide +kernel⟩
  obtain ⟨_, _, _, content, -, -, -, written⟩ :=
    offered layout (.inr ⟨_, _, small ▸ success⟩)
  obtain ⟨output, _, sizeSpan, renderSpan, -, -, again⟩ :=
    written (content.length + 1) (by omega)
  exact ⟨sequence, target, last, frame, kept, layout, output, sizeSpan, renderSpan, _, first,
    second, size, resized, success, again⟩

end FrameHeader

end Av1Tiling
