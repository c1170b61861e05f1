import Av1Tiling.Frame.Rewriting
import Av1Tiling.Proofs.Code.Growth
import Av1Tiling.Proofs.Obu.Emit

/-!
# What rewritten headers have added

Sequence headers and frame headers that are written again only add bits, whatever they are read from
and written for.
-/

namespace Av1Tiling

open Write

namespace TileLayout

theorem writeStarts_grows (name : String) (count limit left start : Nat) (sizes : List Nat) :
    Grows (writeStarts name count limit left start sizes) Any := by
  induction left generalizing start sizes with
  | zero => exact .ite (fun _ => (Grows.pure _).any) fun _ => .throw _
  | succ left ih =>
    exact .ite (fun _ => (Grows.pure _).any) fun _ =>
      (Field.write_grows _ _).bind_any fun _ => (ih _ _).bind_any fun _ => .pure _

theorem writeUniform_grows (layout : TileLayout) : Grows layout.writeUniform Any :=
  (Field.write_grows _ _).bind_any fun _ => (Field.write_grows _ _).bind_any fun _ => .pure _

theorem writeExplicit_grows (layout : TileLayout) : Grows layout.writeExplicit Any :=
  (writeStarts_grows _ _ _ _ _ _).bind_any fun _ =>
    (writeStarts_grows _ _ _ _ _ _).bind_any fun _ => .pure _

theorem write_grows (layout : TileLayout) : Grows layout.write Any := by
  have rest (cuts : Cuts) : Grows (do
      let tiles ← cuts.tileCount
      if 0 < cuts.tileBits then
        (← contextField cuts.tileBits tiles).write layout.contextTile
        tileSizeBytesField.write (layout.tileSizeBytes - 1) : Write Unit) Any :=
    .bind_any (.stays fun _ _ _ run => (Step.lift_eq_ok.1 run).2) fun _ =>
      .ite (fun _ => .bind_any (.stays fun _ _ _ run => (Step.liftFault_eq_ok.1 run).2) fun _ =>
          (Field.write_grows _ _).bind_any fun _ => Field.write_grows _ _)
        fun _ => (Grows.pure _).any
  refine (Field.writeFlag_grows _ _).bind_any fun _ => (?_ : Grows _ Any)
  exact .ite (fun _ => layout.writeUniform_grows.bind_any rest) fun _ =>
    layout.writeExplicit_grows.bind_any rest

end TileLayout

theorem FrameDimensions.write_grows (dimensions : FrameDimensions) : Grows dimensions.write Any :=
  (Field.write_grows _ _).bind_any fun _ => (Field.write_grows _ _).bind_any fun _ =>
    (Field.write_grows _ _).bind_any fun _ => Field.write_grows _ _

theorem SequenceHeader.writeWithDimensions_grows (sequence : SequenceHeader) (payload : Bytes)
    (width height : Nat) : Grows (sequence.writeWithDimensions payload width height) Any :=
  .bind_any (.stays fun _ _ _ run => (Step.lift_eq_ok.1 run).2) fun target =>
    .bind_any (.stays fun _ _ _ run => (Step.lift_eq_ok.1 run).2) fun _ =>
      .ite (fun _ => .throw_bind _ _) fun _ => (copy_grows _ _ _).bind_any fun _ =>
        target.dimensions.write_grows.bind_any fun _ => (copy_grows _ _ _).bind_any fun _ => .pure _

namespace FrameHeader

theorem replace_grows (payload : Bytes) (start : Nat) (span : Option BitSpan)
    {element : Write Unit} (grows : Grows element Any) :
    Grows (replace payload start span element) Any := by
  cases span with
  | none => exact (Grows.pure _).any
  | some span => exact (copy_grows _ _ _).bind_any fun _ => grows.bind_any fun _ => .pure _

theorem writeResized_grows (frame : FrameHeader) (payload : Bytes) (target : SequenceHeader) :
    Grows (frame.writeResized payload target) Any := by
  have size : Grows (writeSize target) Any :=
    (Field.write_grows _ _).bind_any fun _ => Field.write_grows _ _
  exact (replace_grows _ _ _ size).bind_any fun _ => replace_grows _ _ _ (bit_grows _).any

theorem writeRewritten_grows (frame : FrameHeader) (payload : Bytes)
    (target : Option SequenceHeader) (layout : TileLayout) :
    Grows (frame.writeRewritten payload target layout) Any := by
  refine .bind_any (.stays fun _ _ _ run => (Emit.lift_eq_ok.1 run).2) fun stop =>
    (?_ : Grows _ Any)
  cases frame.layoutSpan with
  | none => exact (copy_grows _ _ _).emit
  | some span =>
    have rest : Grows (do
        if frame.layout = some layout then
          Write.copy payload span.start span.stop
        else
          layout.write
        Write.copy payload span.stop stop : Emit Unit) Any :=
      .ite (fun _ => (copy_grows _ _ _).emit.bind_any fun _ => (copy_grows _ _ _).emit) fun _ =>
        layout.write_grows.emit.bind_any fun _ => (copy_grows _ _ _).emit
    have front (next : Nat) := (copy_grows payload next span.start).emit.bind_any fun _ => rest
    refine .ite (fun _ => .throw_bind _ _) fun _ => ?_
    cases target with
    | none => exact (Grows.pure 0).bind_any front
    | some target => exact (frame.writeResized_grows payload target).emit.bind_any front

end FrameHeader

end Av1Tiling
