import Av1Tiling.Proofs.Checked
import Av1Tiling.Proofs.Frame.Exact
import Av1Tiling.Proofs.Tile.Layout

/-!
# Frame headers cut into other tiles

The tile info is the last thing that a frame header is read for, and nothing in front of it depends
on it. So where a header was read with one layout, the same bits with the code of another layout of
the same grid are read as the same header with that layout.
-/

namespace Av1Tiling

/-- A frame whose sides fit 32 bits has a narrow grid. -/
theorem SuperblockGrid.checked_sound {width height : Nat} {large : Bool} {grid : SuperblockGrid}
    (success : checked width height large = .ok grid) : grid.Narrow := by
  obtain ⟨_, first, success⟩ := Checked.bind_eq_ok.1 success
  obtain ⟨_, second, success⟩ := Checked.bind_eq_ok.1 success
  obtain ⟨_, third, success⟩ := Checked.bind_eq_ok.1 success
  have wide := (Checked.word_eq_ok_iff.1 first).1
  have high := (Checked.word_eq_ok_iff.1 second).1
  cases success
  rw [Checked.wordBound] at wide high
  constructor <;>
    cases large <;>
    simp only [sbCols, sbRows, miCols, miRows, covering, modeInfoUnits, superblockShift,
      Bool.false_eq_true, if_true, if_false] <;>
    omega

/-- The header with its tile info at bit `start` coding `layout`. -/
def FrameHeader.recut (frame : FrameHeader) (start : Nat) (layout : TileLayout) : FrameHeader :=
  { frame with
    layout := some layout, layoutSpan := some ⟨start, start + layout.code.length⟩ }

namespace ReadFrame

/-- The code of a layout of the frame's own grid is read as that layout. -/
theorem tileInfo_yields {sequence : SequenceHeader} {size : FrameSize} {layout : TileLayout}
    (grid : SuperblockGrid.checked size.frameWidth size.frameHeight sequence.largeSuperblocks =
      .ok layout.grid) (expressible : layout.Expressible) (pos : Nat) :
    Read.Yields (tileInfo sequence size) pos layout.code
      (layout, ⟨pos, pos + layout.code.length⟩) := by
  rw [tileInfo, Step.liftFault_bind grid]
  exact (TileLayout.code_yields (SuperblockGrid.checked_sound grid) expressible pos).spanned

/-- Tile info was read as some layout, and the codes of other layouts of the same grid are read in
    its place. -/
theorem tileInfo_recut {sequence : SequenceHeader} {size : FrameSize} {reader behind : BitReader}
    {own : TileLayout} {span : BitSpan}
    (run : tileInfo sequence size reader = .ok (own, span) behind) :
    own.grid.Narrow ∧ own.Expressible ∧ reader.Advances own.code behind ∧
      span = ⟨reader.pos, reader.pos + own.code.length⟩ ∧
      ∀ layout : TileLayout, layout.grid = own.grid → layout.Expressible → ∀ pos,
        Read.Yields (tileInfo sequence size) pos layout.code
          (layout, ⟨pos, pos + layout.code.length⟩) := by
  obtain ⟨grid, _, checked, read⟩ := Step.bind_eq_ok.1 run
  obtain ⟨success, rfl⟩ := Step.liftFault_eq_ok.1 checked
  have narrow := SuperblockGrid.checked_sound success
  obtain ⟨start, _, first, second⟩ := Step.bind_eq_ok.1 read
  cases first
  obtain ⟨layout, _, found, rest⟩ := Step.bind_eq_ok.1 second
  obtain ⟨⟨rfl, expressible⟩, advances⟩ := (TileLayout.read_decodes narrow).sound found
  obtain ⟨stop, _, third, last⟩ := Step.bind_eq_ok.1 rest
  cases third
  cases last
  refine ⟨narrow, expressible, advances, by rw [advances.pos], ?_⟩
  intro layout same expressible pos
  exact tileInfo_yields (same ▸ success) expressible pos

/-- Where `step` reads the header of a frame, it reads other layouts of the same grid in the place
    of that frame's own layout. -/
def Recuts (step : ReadFrame FrameHeader) : Prop :=
  ∀ state frame behind, step state = .ok frame behind → frame.showExisting = false →
    ∃ (front : Bits) (own : TileLayout), own.grid.Narrow ∧ own.Expressible ∧
      state.reader.Advances (front ++ own.code) behind.reader ∧
      frame = frame.recut (state.reader.pos + front.length) own ∧
      ∀ layout : TileLayout, layout.grid = own.grid → layout.Expressible →
        Yields step state.reader.pos state.slots (front ++ layout.code)
          (frame.recut (state.reader.pos + front.length) layout) behind.slots

theorem newFrame_recuts (sequence : SequenceHeader) (header : ObuHeader) (frame : FrameKind) :
    Recuts (newFrame sequence header frame) := by
  intro state found behind run _
  obtain ⟨uncut, between, first, second⟩ := Step.bind_eq_ok.1 run
  obtain ⟨⟨own, span⟩, last, third, fourth⟩ := Step.bind_eq_ok.1 second
  cases fourth
  obtain ⟨front, advances, yields⟩ := uncutFrame_exact _ _ _ _ _ _ first
  obtain ⟨read, slots⟩ := lift_eq_ok.1 third
  obtain ⟨narrow, expressible, onward, rfl, others⟩ := tileInfo_recut read
  rw [advances.pos]
  refine ⟨front, own, narrow, expressible, advances.trans onward, rfl, ?_⟩
  intro layout same legal
  have read' := others layout same legal (state.reader.pos + front.length)
  rw [slots, ← List.append_nil (front ++ layout.code), List.append_assoc]
  exact yields.bind ((Yields.lift read' _).bind (.pure _ _ _))

/-- What is read in front does not matter, as long as it is exact. -/
theorem Recuts.bind {α : Type} {step : ReadFrame α} {next : α → ReadFrame FrameHeader}
    (first : Exact step) (second : ∀ value, Recuts (next value)) : Recuts (step >>= next) := by
  intro state frame behind run own
  obtain ⟨value, between, run₁, run₂⟩ := Step.bind_eq_ok.1 run
  obtain ⟨used, advances, yields⟩ := first _ _ _ run₁
  obtain ⟨front, layout, narrow, expressible, onward, same, others⟩ :=
    second value _ _ _ run₂ own
  have start : between.reader.pos + front.length =
      state.reader.pos + (used ++ front).length := by
    rw [advances.pos, List.length_append, Nat.add_assoc]
  rw [start] at same others
  rw [advances.pos] at others
  refine ⟨used ++ front, layout, narrow, expressible, ?_, same, ?_⟩
  · rw [List.append_assoc]
    exact advances.trans onward
  · intro other sameGrid legal
    rw [List.append_assoc]
    exact yields.bind (others other sameGrid legal)

/-- A header that shows a frame in a slot has no tile info. -/
theorem existing_recuts (sequence : SequenceHeader) (header : ObuHeader) :
    Recuts (existing sequence header) := by
  intro state frame behind run own
  obtain ⟨shownSlot, _, _, run⟩ := Step.bind_eq_ok.1 run
  obtain ⟨_, _, _, run⟩ := Step.bind_eq_ok.1 run
  obtain ⟨slots, _, _, run⟩ := Step.bind_eq_ok.1 run
  obtain ⟨_, _, _, run⟩ := Step.bind_eq_ok.1 run
  obtain ⟨_, _, _, run⟩ := Step.bind_eq_ok.1 run
  cases run
  cases own

/-- Every frame header that brings a frame can be cut into other tiles. -/
theorem frameHeader_recuts (sequence : SequenceHeader) (header : ObuHeader) :
    Recuts (frameHeader sequence header) := by
  rw [frameHeader]
  split
  · exact newFrame_recuts _ _ _
  · refine .bind (Exact.lift Read.bit_exact) fun shown => ?_
    split
    · split
      · intro state frame behind run own
        cases run
      · exact existing_recuts _ _
    · exact .bind (Exact.lift (kind_exact sequence)) fun frame => newFrame_recuts _ _ _

end ReadFrame

end Av1Tiling
