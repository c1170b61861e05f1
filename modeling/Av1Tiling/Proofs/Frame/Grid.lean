import Av1Tiling.Proofs.Frame.Recut
import Av1Tiling.Proofs.Frame.Safety

/-!
# The grid of a frame

A frame is cut along the superblocks of its own size, as large as its sequence has them. A header
that shows an existing frame cuts nothing.
-/

namespace Av1Tiling

/-- The grid that is checked is the one of the sides. -/
theorem SuperblockGrid.checked_eq {width height : Nat} {large : Bool} {grid : SuperblockGrid}
    (success : checked width height large = .ok grid) : grid = ⟨width, height, large⟩ := by
  obtain ⟨_, -, success⟩ := Checked.bind_eq_ok.1 success
  obtain ⟨_, -, success⟩ := Checked.bind_eq_ok.1 success
  obtain ⟨_, -, success⟩ := Checked.bind_eq_ok.1 success
  cases success
  rfl

/-- A header of the sequence that shows an existing frame, or brings one that is cut along its own
    superblocks. -/
def FrameHeader.CutFor (sequence : SequenceHeader) (frame : FrameHeader) : Prop :=
  frame.showExisting = true ∧ frame.layout = none ∨
    frame.showExisting = false ∧ ∃ layout, frame.layout = some layout ∧
      SuperblockGrid.checked frame.size.frameWidth frame.size.frameHeight
        sequence.largeSuperblocks = .ok layout.grid

namespace ReadFrame

/-- Whenever `step` yields a value it is one with `yields`. -/
abbrev Always {α : Type} (step : ReadFrame α) (yields : α → Prop) : Prop :=
  Step.Ensures (fun _ => True) (fun _ => True) step yields

variable (sequence : SequenceHeader) (header : ObuHeader)

theorem tileInfo_grid {size : FrameSize} {reader behind : BitReader} {layout : TileLayout}
    {span : BitSpan} (run : tileInfo sequence size reader = .ok (layout, span) behind) :
    SuperblockGrid.checked size.frameWidth size.frameHeight sequence.largeSuperblocks =
      .ok layout.grid := by
  obtain ⟨grid, _, checked, read⟩ := Step.bind_eq_ok.1 run
  obtain ⟨success, -⟩ := Step.liftFault_eq_ok.1 checked
  obtain ⟨start, _, -, second⟩ := Step.bind_eq_ok.1 read
  obtain ⟨found, _, third, rest⟩ := Step.bind_eq_ok.1 second
  obtain ⟨stop, _, -, last⟩ := Step.bind_eq_ok.1 rest
  cases last
  obtain ⟨same, -⟩ := ((TileLayout.read_decodes (SuperblockGrid.checked_sound success)).sound
    third).1
  rw [same]
  exact success

theorem uncutFrame_own (frame : FrameKind) :
    Always (uncutFrame sequence header frame) fun uncut => uncut.showExisting = false := by
  refine Step.Ensures.trivial.bind fun _ _ => Step.Ensures.trivial.bind fun _ _ => ?_
  refine Step.Ensures.trivial.bind fun _ _ => Step.Ensures.trivial.bind fun _ _ => ?_
  refine Step.Ensures.trivial.bind fun _ _ => Step.Ensures.trivial.bind fun _ _ => ?_
  refine Step.Ensures.trivial.bind fun _ _ => Step.Ensures.trivial.bind fun _ _ => ?_
  refine Step.Ensures.trivial.bind fun _ _ => Step.Ensures.trivial.bind fun _ _ => ?_
  refine Step.Ensures.trivial.bind fun _ _ => Step.Ensures.trivial.bind fun _ _ => ?_
  exact .pure rfl

theorem newFrame_cut (frame : FrameKind) :
    Always (newFrame sequence header frame) (FrameHeader.CutFor sequence) := by
  refine (uncutFrame_own sequence header frame).bind fun uncut own => ?_
  have cut : Always (liftM (tileInfo sequence uncut.size)) fun found =>
      SuperblockGrid.checked uncut.size.frameWidth uncut.size.frameHeight
        sequence.largeSuperblocks = .ok found.1.grid := by
    intro state _
    cases run : (liftM (tileInfo sequence uncut.size) : ReadFrame _) state with
    | ok found behind =>
      exact ⟨tileInfo_grid sequence (lift_eq_ok.1 run).1, trivial⟩
    | error cause behind => exact ⟨trivial, trivial⟩
  exact cut.bind fun found known => .pure (.inr ⟨own, found.1, rfl, known⟩)

theorem existing_cut : Always (existing sequence header) (FrameHeader.CutFor sequence) := by
  refine Step.Ensures.trivial.bind fun _ _ => Step.Ensures.trivial.bind fun _ _ => ?_
  refine Step.Ensures.trivial.bind fun _ _ => Step.Ensures.trivial.bind fun _ _ => ?_
  refine Step.Ensures.trivial.bind fun _ _ => ?_
  exact .pure (.inl ⟨rfl, rfl⟩)

theorem frameHeader_cut :
    Always (frameHeader sequence header) (FrameHeader.CutFor sequence) := by
  refine .ite (fun _ => newFrame_cut sequence header _) fun _ => ?_
  refine Step.Ensures.trivial.bind fun shown _ => .ite (fun _ => .ite (fun _ => .throw trivial)
    fun _ => existing_cut sequence header) fun _ => ?_
  exact Step.Ensures.trivial.bind fun kind _ => newFrame_cut sequence header kind

end ReadFrame

theorem FrameHeader.parse_cut {sequence : SequenceHeader} {header : ObuHeader} {payload : Bytes}
    {slots kept : RefSlots} {frame : FrameHeader}
    (parsed : parse sequence header payload slots = .ok frame kept) : frame.CutFor sequence := by
  rw [parse] at parsed
  cases run : ReadFrame.frameHeader sequence header ⟨.ofBytes payload, slots⟩ with
  | error cause state =>
    rw [run] at parsed
    cases parsed
  | ok found state =>
    rw [run] at parsed
    cases parsed
    exact ((ReadFrame.frameHeader_cut sequence header).of_ok trivial run).1

/-- Nothing is cut where there are no superblocks. -/
theorem TileLayout.Expressible.tileCount_of_empty {layout : TileLayout}
    (expressible : layout.Expressible) (none : layout.grid.sbCols = 0) : layout.tileCount = 0 := by
  have starts : layout.colStarts = [0] := by
    have legal := expressible.cuts
    split at legal
    next uniform =>
      have cols : layout.colStarts = uniformStarts layout.grid.sbCols layout.colsLog2 :=
        congrArg Cuts.colStarts legal.starts
      have size := uniformSize_pos 0 layout.colsLog2
      have tiles : uniformTiles 0 layout.colsLog2 = 0 := Nat.div_eq_of_lt (by omega)
      rw [cols, none, uniformStarts_eq, tiles]
      rfl
    next explicit =>
      have axis := legal.cols
      rw [none] at axis
      exact axis.eq_of_empty
  rw [tileCount, columns, starts]
  exact Nat.zero_mul _

theorem FrameHeader.CutFor.uncut {sequence : SequenceHeader} {frame : FrameHeader}
    (known : frame.CutFor sequence) (shown : frame.showExisting = true) : frame.layout = none := by
  rcases known with ⟨-, none⟩ | ⟨own, -⟩
  · exact none
  · rw [shown] at own
    cases own

/-- A frame that has tiles is not empty. -/
theorem FrameHeader.CutFor.grid_inRange {sequence : SequenceHeader} {frame : FrameHeader}
    {layout : TileLayout} (known : frame.CutFor sequence) (inRange : frame.InRange)
    (own : frame.showExisting = false) (cut : frame.layout = some layout)
    (tiles : 1 ≤ layout.tileCount) :
    layout.grid = ⟨frame.size.frameWidth, frame.size.frameHeight, sequence.largeSuperblocks⟩ ∧
      layout.Expressible ∧ layout.grid.InRange := by
  rcases known with ⟨shown, -⟩ | ⟨-, found, same, success⟩
  · rw [own] at shown
    cases shown
  · obtain rfl := Option.some.inj (same.symm.trans cut)
    obtain ⟨other, again, expressible⟩ := inRange.layout own
    obtain rfl := Option.some.inj (same.symm.trans again)
    have grid := SuperblockGrid.checked_eq success
    refine ⟨grid, expressible, ?_⟩
    rcases inRange.size with ⟨-, noWidth, noHeight⟩ | ⟨-, wide, high⟩
    · have none : found.grid.sbCols = 0 := by
        rw [SuperblockGrid.sbCols, SuperblockGrid.miCols, grid, noWidth]
        exact SuperblockGrid.covering_empty _
      rw [expressible.tileCount_of_empty none] at tiles
      cases tiles
    · rw [grid]
      exact ⟨wide, high⟩

end Av1Tiling
