import Av1Tiling.Frame.Rewriting
import Av1Tiling.Proofs.Bits.Splicing
import Av1Tiling.Proofs.Code.TrailingBit
import Av1Tiling.Proofs.Frame.Recut
import Av1Tiling.Proofs.Obu.Emit
import Av1Tiling.Proofs.Tile.Synthesis

/-!
# Rewritten frame headers

A header that is written again for another layout has the code of that layout in the place of its
tile info, and the bits of its payload everywhere else. So it is read as the same header, cut into
the other layout.
-/

namespace Av1Tiling.FrameHeader

/-- A layout that is offered for a grid: one that some bits code, or one found for given starts. -/
def Offered (grid : SuperblockGrid) (layout : TileLayout) : Prop :=
  (∃ reader behind, TileLayout.read grid reader = .ok layout behind) ∨
    ∃ cols rows, TileLayout.ofSuperblockStarts grid cols rows = .ok layout

theorem Offered.expressible {grid : SuperblockGrid} {layout : TileLayout} (narrow : grid.Narrow)
    (offered : Offered grid layout) : layout.grid = grid ∧ layout.Expressible := by
  rcases offered with ⟨reader, behind, run⟩ | ⟨cols, rows, success⟩
  · exact ((TileLayout.read_decodes narrow).sound run).1
  · obtain ⟨same, expressible, -⟩ := TileLayout.ofSuperblockStarts_sound success
    exact ⟨same, expressible⟩

/-- What is written of a header that is cut into other tiles. -/
theorem writeRewritten_appends {frame : FrameHeader} {payload : Bytes} {span : BitSpan} {stop : Nat}
    {layout : TileLayout} {coded : Bits} (located : frame.layoutSpan = some span)
    (closed : TrailingBit.position payload = .ok stop) (inside : span.stop ≤ stop)
    (ordered : span.start ≤ span.stop) (written : Write.Appends layout.write coded ())
    (same : frame.layout = some layout → coded = span.of payload) :
    Write.Appends (frame.writeRewritten payload none layout) (spliced payload span stop coded)
      () := by
  have bound := TrailingBit.position_lt closed
  have front := (Write.copy_appends (Nat.zero_le span.start)
    (by omega : span.start ≤ 8 * payload.length)).emit
  have back := (Write.copy_appends inside (by omega : stop ≤ 8 * payload.length)).emit
  have short : ¬stop < span.stop := by omega
  rw [spliced, List.append_assoc, writeRewritten, Emit.lift_bind closed, located]
  simp only [short, if_false]
  refine front.bind ?_
  split
  next unchanged =>
    rw [same unchanged]
    exact (Write.copy_appends ordered (by omega)).emit.bind back
  next => exact written.emit.bind back

/-- What is known of the tile info of a frame header that was read: it codes the header's layout,
    and a payload with another code in its place is read as the header with the other layout. -/
theorem parse_recut {sequence : SequenceHeader} {header : ObuHeader} {payload : Bytes}
    {slots kept : RefSlots} {frame : FrameHeader}
    (parsed : parse sequence header payload slots = .ok frame kept)
    (own : frame.showExisting = false) :
    ∃ (front rest : Bits) (current : TileLayout), current.grid.Narrow ∧ current.Expressible ∧
      Bits.ofBytes payload = front ++ current.code ++ rest ∧
      frame = frame.recut front.length current ∧
      ∀ layout : TileLayout, layout.grid = current.grid → layout.Expressible →
        ∀ (output : Bytes) (rest' : Bits), Bits.ofBytes output = front ++ layout.code ++ rest' →
          parse sequence header output slots = .ok (frame.recut front.length layout) kept := by
  rw [parse] at parsed
  cases run : ReadFrame.frameHeader sequence header ⟨.ofBytes payload, slots⟩ with
  | error cause state => simp [run] at parsed
  | ok found state =>
    simp only [run, EStateM.Result.ok.injEq] at parsed
    obtain ⟨rfl, rfl⟩ := parsed
    obtain ⟨front, current, narrow, expressible, advances, same, others⟩ :=
      ReadFrame.frameHeader_recuts sequence header _ _ _ run own
    simp only [BitReader.ofBytes, Nat.zero_add] at same others
    refine ⟨front, state.reader.rest, current, narrow, expressible, advances.rest, same, ?_⟩
    intro layout sameGrid legal output rest' bits
    rw [parse, BitReader.ofBytes, bits, others layout sameGrid legal rest']

/-- A header that is rewritten for another layout of its grid, closed and filled up is read over the
    same slots as the same header with that layout, and leaves the same slots. Around its tile info
    it has the bits of the payload, and with its own layout it has all of the content's bits. -/
theorem writeRewritten_parses {sequence : SequenceHeader} {header : ObuHeader} {payload : Bytes}
    {slots kept : RefSlots} {frame : FrameHeader} {stop : Nat}
    (parsed : parse sequence header payload slots = .ok frame kept)
    (own : frame.showExisting = false) (closed : TrailingBit.position payload = .ok stop)
    (inside : ∀ span, frame.layoutSpan = some span → span.stop ≤ stop) :
    ∃ span current, frame.layoutSpan = some span ∧ frame.layout = some current ∧
      span.start ≤ span.stop ∧
      ∀ layout, Offered current.grid layout →
        ∃ coded, Write.Appends layout.write coded () ∧
          (layout = current →
            spliced payload span stop coded = (⟨0, stop⟩ : BitSpan).of payload) ∧
          ∀ capacity, (spliced payload span stop coded).length < 8 * capacity →
            ∃ output behind,
              (do frame.writeRewritten payload none layout; Emit.trailingBits; Emit.finish)
                (BitWriter.empty capacity) = .ok output behind ∧
              Bits.ofBytes output = spliced payload span stop coded ++
                Emit.closing (spliced payload span stop coded).length ∧
              parse sequence header output slots = .ok
                { frame with
                  layout := some layout
                  layoutSpan := some
                    ⟨span.start, span.stop + coded.length - span.length⟩ } kept := by
  obtain ⟨front, rest, current, narrow, expressible, bits, same, others⟩ := parse_recut parsed own
  have located : frame.layoutSpan =
      some ⟨front.length, front.length + current.code.length⟩ := congrArg layoutSpan same
  have cut : frame.layout = some current := congrArg FrameHeader.layout same
  have before := inside _ located
  refine ⟨_, current, located, cut, Nat.le_add_right .., fun layout offered => ?_⟩
  obtain ⟨sameGrid, legal⟩ := offered.expressible narrow
  have written : Write.Appends layout.write layout.code () :=
    TileLayout.write_appends (sameGrid ▸ narrow) legal
  have ownCode : layout = current → layout.code =
      (⟨front.length, front.length + current.code.length⟩ : BitSpan).of payload := by
    rintro rfl
    exact (of_between bits).symm
  refine ⟨layout.code, written, ?_, fun capacity room => ?_⟩
  · intro unchanged
    rw [ownCode unchanged]
    exact spliced_of (Nat.le_add_right ..) before
  · have appends := writeRewritten_appends located closed before (Nat.le_add_right ..) written
      fun unchanged => ownCode (Option.some.inj (unchanged.symm.trans cut))
    obtain ⟨output, behind, run, total⟩ := Emit.finish_closed appends room
    refine ⟨output, behind, run, total, ?_⟩
    have moved : front.length + current.code.length + layout.code.length -
        (⟨front.length, front.length + current.code.length⟩ : BitSpan).length =
        front.length + layout.code.length := by
      simp only [BitSpan.length]
      omega
    rw [moved]
    rw [List.append_assoc] at bits
    rw [spliced, of_front bits, List.append_assoc] at total
    exact others layout sameGrid legal output _ total

/-- A header that is written again for its own layout has the content of its payload. -/
theorem writeRewritten_own {sequence : SequenceHeader} {header : ObuHeader} {payload : Bytes}
    {slots kept : RefSlots} {frame : FrameHeader} {layout : TileLayout} {stop : Nat}
    (parsed : parse sequence header payload slots = .ok frame kept)
    (own : frame.showExisting = false) (cut : frame.layout = some layout)
    (closed : TrailingBit.position payload = .ok stop)
    (inside : ∀ span, frame.layoutSpan = some span → span.stop ≤ stop) :
    Write.Appends (frame.writeRewritten payload none layout) ((⟨0, stop⟩ : BitSpan).of payload)
      () := by
  obtain ⟨front, rest, current, narrow, expressible, bits, same, -⟩ := parse_recut parsed own
  have located : frame.layoutSpan =
      some ⟨front.length, front.length + current.code.length⟩ := congrArg layoutSpan same
  have found : frame.layout = some current := congrArg FrameHeader.layout same
  obtain rfl := Option.some.inj (found.symm.trans cut)
  have before := inside _ located
  have code := of_between bits
  rw [← spliced_of (Nat.le_add_right ..) before, code]
  exact writeRewritten_appends located closed before (Nat.le_add_right ..)
    (TileLayout.write_appends narrow expressible) fun _ => code.symm

/-- A still picture of 128 by 128 samples is rewritten for two tile columns. -/
theorem writeRewritten_parses_two_columns :
    ∃ sequence last frame kept layout output span,
      SequenceHeader.parse ⟨.sequenceHeader, none, none⟩ [0x18, 0x19, 0xBF, 0xFF, 0x00, 0x02] =
        .ok sequence last ∧
      parse sequence ⟨.frameHeader, none, none⟩ [0x12] .empty = .ok frame kept ∧
      TileLayout.ofSuperblockStarts ⟨128, 128, false⟩ [0, 1] [0] = .ok layout ∧
      parse sequence ⟨.frameHeader, none, none⟩ output .empty =
        .ok { frame with layout := some layout, layoutSpan := some span } kept := by
  have facts : (match SequenceHeader.parse ⟨.sequenceHeader, none, none⟩
      [0x18, 0x19, 0xBF, 0xFF, 0x00, 0x02] with
    | .ok sequence _ =>
      match parse sequence ⟨.frameHeader, none, none⟩ [0x12] .empty with
      | .ok frame _ => !frame.showExisting && frame.layoutSpan == some ⟨3, 6⟩ &&
          frame.layout.map TileLayout.grid == some ⟨128, 128, false⟩
      | .error _ _ => false
    | .error _ _ => false) = true := by decide +kernel
  cases first : SequenceHeader.parse ⟨.sequenceHeader, none, none⟩
      [0x18, 0x19, 0xBF, 0xFF, 0x00, 0x02] with
  | error cause last => simp [first] at facts
  | ok sequence last =>
    simp only [first] at facts
    cases second : parse sequence ⟨.frameHeader, none, none⟩ [0x12] .empty with
    | error cause kept => simp [second] at facts
    | ok frame kept =>
      simp only [second, Bool.and_eq_true, Bool.not_eq_true', beq_iff_eq] at facts
      obtain ⟨⟨own, located⟩, grid⟩ := facts
      obtain ⟨span, current, sameSpan, cut, -, offered⟩ := writeRewritten_parses second own
        (by decide +kernel : TrailingBit.position [0x12] = .ok 6) (by
          intro span found
          rw [located] at found
          cases found
          decide)
      rw [cut] at grid
      have sameGrid : current.grid = ⟨128, 128, false⟩ := Option.some.inj grid
      obtain ⟨layout, success⟩ : ∃ layout,
          TileLayout.ofSuperblockStarts ⟨128, 128, false⟩ [0, 1] [0] = .ok layout :=
        ⟨{ grid := ⟨128, 128, false⟩, uniform := true, colsLog2 := 1, rowsLog2 := 0
           colStarts := [0, 1, 2], rowStarts := [0, 2], contextTile := 0
           tileSizeBytes := 4 }, by decide +kernel⟩
      obtain ⟨coded, -, -, written⟩ := offered layout (.inr ⟨_, _, sameGrid ▸ success⟩)
      obtain ⟨output, _, -, -, again⟩ := written
        ((spliced [0x12] span 6 coded).length + 1) (by omega)
      exact ⟨sequence, last, frame, kept, layout, output, _, rfl, second, success, again⟩

end Av1Tiling.FrameHeader
