import Av1Tiling.Frame.Rewriting
import Av1Tiling.Proofs.Obu.Faultless
import Av1Tiling.Proofs.Sequence.Rewriting
import Av1Tiling.Proofs.Tile.Safety

/-!
# Rewriting without faults

Layouts, headers and tile groups are written without faults, whatever they are written for. A layout
only needs superblocks in both directions: there has to be a tile that the context tile can be.
-/

namespace Av1Tiling

open Write

/-! ## Layouts -/

namespace TileLayout

/-- Some tile starts wherever there are superblocks left. -/
theorem writeStarts_safe (name : String) (count limit left start : Nat) (sizes : List Nat) :
    Safe (writeStarts name count limit left start sizes) fun starts =>
      1 ≤ starts.length ∧ (start < count → 2 ≤ starts.length) := by
  induction left generalizing start sizes with
  | zero =>
    refine .ite (fun none => .pure ⟨Nat.le_refl _, fun some => ?_⟩) fun _ => .throw ?_
    · exact absurd some (Nat.not_lt.2 none)
    · exact Failure.not_isFault_raised _
  | succ left ih =>
    refine .ite (fun none => .pure ⟨Nat.le_refl _, fun some => ?_⟩) fun _ => ?_
    · exact absurd some (Nat.not_lt.2 none)
    · refine (Field.write_safe _ _).bind fun _ _ => (ih _ _).bind fun starts known => .pure ?_
      rw [List.length_cons]
      exact ⟨Nat.le_add_left .., fun _ => Nat.succ_le_succ known.1⟩

/-- The cuts leave a tile on both axes. -/
def Cuts.Tiled (cuts : Cuts) : Prop :=
  2 ≤ cuts.colStarts.length ∧ 2 ≤ cuts.rowStarts.length

variable {layout : TileLayout}

theorem writeUniform_safe (cols : 1 ≤ layout.grid.sbCols) (rows : 1 ≤ layout.grid.sbRows) :
    Safe layout.writeUniform Cuts.Tiled :=
  (Field.write_safe _ _).bind fun _ _ => (Field.write_safe _ _).bind fun _ _ =>
    .pure ⟨Cuts.two_le_uniformStarts cols _, Cuts.two_le_uniformStarts rows _⟩

theorem writeExplicit_safe (cols : 1 ≤ layout.grid.sbCols) (rows : 1 ≤ layout.grid.sbRows) :
    Safe layout.writeExplicit Cuts.Tiled :=
  (writeStarts_safe _ _ _ _ _ _).bind fun _ colStarts =>
    (writeStarts_safe _ _ _ _ _ _).bind fun _ rowStarts =>
      .pure ⟨colStarts.2 cols, rowStarts.2 rows⟩

theorem write_safe (cols : 1 ≤ layout.grid.sbCols) (rows : 1 ≤ layout.grid.sbRows) :
    Safe layout.write fun _ => True := by
  have rest (cuts : Cuts) (tiled : cuts.Tiled) : Safe (do
      let tiles ← cuts.tileCount
      if 0 < cuts.tileBits then
        (← contextField cuts.tileBits tiles).write layout.contextTile
        tileSizeBytesField.write (layout.tileSizeBytes - 1) : Write Unit) fun _ => True := by
    have counted : Safe (liftM cuts.tileCount) fun tiles => 1 ≤ tiles := by
      refine .lift fun tiles counted => ?_
      rw [(Cuts.tileCount_eq_ok.1 counted).2]
      exact Nat.mul_pos (Nat.sub_pos_of_lt tiled.1) (Nat.sub_pos_of_lt tiled.2)
    refine counted.bind fun tiles some => .ite (fun _ => ?_) fun _ => .pure trivial
    have context : Checked.Gives (contextField cuts.tileBits tiles) fun _ => True :=
      ⟨_, contextField_eq_ok.2 ⟨some, rfl⟩, trivial⟩
    exact (Safe.liftFault context).bind fun _ _ =>
      (Field.write_safe _ _).bind fun _ _ => Field.write_safe _ _
  refine (Field.write_safe uniformFlag layout.uniform.toNat).bind fun _ _ => ?_
  exact .ite (fun _ => (writeUniform_safe cols rows).bind rest) fun _ =>
    (writeExplicit_safe cols rows).bind rest

end TileLayout

/-! ## Headers -/

theorem FrameDimensions.write_safe (dimensions : FrameDimensions) :
    Safe dimensions.write fun _ => True :=
  (Field.write_safe _ _).bind fun _ _ => (Field.write_safe _ _).bind fun _ _ =>
    (Field.write_safe _ _).bind fun _ _ => Field.write_safe _ _

theorem SequenceHeader.writeWithDimensions_safe (sequence : SequenceHeader) (payload : Bytes)
    (width height : Nat) :
    Safe (sequence.writeWithDimensions payload width height) fun _ => True := by
  have target : Safe (liftM (sequence.withDimensions width height)) fun _ => True :=
    .lift fun _ _ => trivial
  have stop : Safe (liftM (TrailingBit.position payload)) fun _ => True :=
    .lift fun _ _ => trivial
  exact target.bind fun target _ => stop.bind fun _ _ =>
    .ite (fun _ => .throw_bind (Failure.not_isFault_raised _)) fun _ =>
      (copy_safe _ _ _).bind fun _ _ => target.dimensions.write_safe.bind fun _ _ =>
        (copy_safe _ _ _).bind fun _ _ => .pure trivial

namespace FrameHeader

theorem replace_safe (payload : Bytes) (start : Nat) (span : Option BitSpan)
    {element : Write Unit} (safe : Safe element fun _ => True) :
    Safe (replace payload start span element) fun _ => True := by
  cases span with
  | none => exact .pure trivial
  | some span => exact (copy_safe _ _ _).bind fun _ _ => safe.bind fun _ _ => .pure trivial

theorem writeResized_safe (frame : FrameHeader) (payload : Bytes) (target : SequenceHeader) :
    Safe (frame.writeResized payload target) fun _ => True := by
  have size : Safe (writeSize target) fun _ => True :=
    (Field.write_safe _ _).bind fun _ _ => Field.write_safe _ _
  exact (replace_safe _ _ _ size).bind fun _ _ => replace_safe _ _ _ (bit_safe _)

end FrameHeader

/-! ## Tile groups -/

namespace TileGroup

theorem writeTiles_safe (sizeBytes index : Nat) (tiles : List Bytes) :
    Safe (writeTiles sizeBytes index tiles) fun _ => True := by
  induction tiles generalizing index with
  | nil => exact .pure trivial
  | cons tile rest ih =>
    cases rest with
    | nil => exact bytes_safe tile
    | cons next rest =>
      exact .ite (fun _ => .throw_bind (Failure.not_isFault_raised _)) fun _ =>
        (LittleEndian.write_safe _ _).bind fun _ _ => (bytes_safe tile).bind fun _ _ =>
          ih (index + 1)

theorem writeAll_safe (layout : TileLayout) (tiles : List Bytes) :
    Safe (writeAll layout tiles) fun _ => True := by
  have behind : Safe (align >>= fun _ => writeTiles layout.tileSizeBytes 0 tiles) fun _ => True :=
    align_safe.bind fun _ _ => writeTiles_safe _ _ _
  exact .ite (fun _ => .throw_bind (Failure.not_isFault_raised _)) fun _ => .ite
    (fun _ => (Field.write_safe rangeFlag false.toNat).bind fun _ _ => behind) fun _ => behind

end TileGroup

theorem FrameHeader.writeRewritten_safe (frame : FrameHeader) (payload : Bytes)
    (target : Option SequenceHeader) {layout : TileLayout} (cols : 1 ≤ layout.grid.sbCols)
    (rows : 1 ≤ layout.grid.sbRows) :
    Emit.Safe (frame.writeRewritten payload target layout) fun _ => True := by
  have copied (start stop : Nat) : Emit.Safe (liftM (copy payload start stop)) fun _ => True :=
    Emit.safe_of_write (copy_safe _ _ _)
  have stop : Emit.Safe (liftM (TrailingBit.position payload)) fun _ => True :=
    .lift fun _ _ => trivial
  refine stop.bind fun stop _ => ?_
  cases frame.layoutSpan with
  | none => exact copied 0 stop
  | some span =>
    have front (next : Nat) : Emit.Safe (do
        Write.copy payload next span.start
        if frame.layout = some layout then
          Write.copy payload span.start span.stop
        else
          layout.write
        Write.copy payload span.stop stop : Emit Unit) fun _ => True :=
      (copied _ _).bind fun _ _ => .ite (fun _ => (copied _ _).bind fun _ _ => copied _ _) fun _ =>
        (Emit.safe_of_write (TileLayout.write_safe cols rows)).bind fun _ _ => copied _ _
    refine .ite (fun _ => .throw_bind (Failure.not_isFault_raised _)) fun _ => ?_
    cases target with
    | none => exact front 0
    | some target =>
      exact (Emit.safe_of_write (frame.writeResized_safe payload target)).bind fun next _ =>
        front next

end Av1Tiling
