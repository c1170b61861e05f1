import Av1Tiling.Frame.Rewriting
import Av1Tiling.Proofs.Bits.Widening

/-!
# Rewriting with more room

Codes, fields, layouts and rewritten headers are written in the same way where there is more room.
-/

namespace Av1Tiling

open Write

/-! ## Codes and fields -/

theorem LittleEndian.write_widens (value size : Nat) : Widens (write value size) :=
  .ite (.throw_bind _ _) (.forM _ fun byte => bits_widens byte.toNat 8)

theorem Leb128.write_widens (value : Nat) : Widens (write value) :=
  (Widens.forM _ fun byte => bytes_widens [byte]).bind fun _ => .pure _

theorem Uvlc.write_widens (value min max : Nat) : Widens (write value min max) :=
  (Widens.lift _).bind fun _ => .ite ((bits_widens _ _).bind fun _ => bit_widens _)
    ((bits_widens _ _).bind fun _ => bits_widens _ _)

theorem NonSymmetric.write_widens (value bound : Nat) : Widens (write value bound) :=
  (Widens.lift _).bind fun _ => .ite (.throw_bind _ _) (.ite (bits_widens _ _)
    ((bits_widens _ _).bind fun _ => bit_widens _))

theorem Increment.write_widens (value min max : Nat) : Widens (write value min max) :=
  .ite (.throw_bind _ _) ((fill_widens _ _).bind fun _ => .ite (bit_widens _) (.pure _))

theorem Subexp.write_widens (value bound : Nat) : Widens (write value bound) :=
  (Widens.lift _).bind fun _ => .ite (.throw_bind _ _)
    ((Increment.write_widens _ _ _).bind fun _ => .ite (bits_widens _ _)
      (NonSymmetric.write_widens _ _))

namespace Field

theorem writeCode_widens (field : Field) (value : Nat) : Widens (field.writeCode value) := by
  rw [writeCode]
  cases field.coding with
  | bits count => exact bits_widens _ _
  | littleEndian size => exact LittleEndian.write_widens _ _
  | leb128 => exact (Leb128.write_widens _).bind fun _ => .pure _
  | uvlc => exact Uvlc.write_widens _ _ _
  | nonSymmetric bound => exact NonSymmetric.write_widens _ _
  | increment => exact Increment.write_widens _ _ _
  | subexp bound => exact Subexp.write_widens _ _

theorem write_widens (field : Field) (value : Nat) : Widens (field.write value) :=
  (Widens.lift _).bind fun _ => field.writeCode_widens value

end Field

/-! ## Layouts -/

namespace TileLayout

theorem writeStarts_widens (name : String) (count limit left start : Nat) (sizes : List Nat) :
    Widens (writeStarts name count limit left start sizes) := by
  induction left generalizing start sizes with
  | zero => exact .ite (.pure _) (.throw _)
  | succ left ih =>
    exact .ite (.pure _) ((Field.write_widens _ _).bind fun _ => (ih _ _).bind fun _ => .pure _)

theorem write_widens (layout : TileLayout) : Widens layout.write := by
  have uniform : Widens layout.writeUniform :=
    (Field.write_widens _ _).bind fun _ => (Field.write_widens _ _).bind fun _ => .pure _
  have explicit : Widens layout.writeExplicit :=
    (writeStarts_widens _ _ _ _ _ _).bind fun _ =>
      (writeStarts_widens _ _ _ _ _ _).bind fun _ => .pure _
  have rest (cuts : Cuts) : Widens (do
      let tiles ← cuts.tileCount
      if 0 < cuts.tileBits then
        (← contextField cuts.tileBits tiles).write layout.contextTile
        tileSizeBytesField.write (layout.tileSizeBytes - 1) : Write Unit) :=
    (Widens.lift _).bind fun _ => .ite ((Widens.liftFault _).bind fun _ =>
      (Field.write_widens _ _).bind fun _ => Field.write_widens _ _) (.pure _)
  refine (Field.write_widens _ _).bind fun _ => (?_ : Widens _)
  exact .ite (uniform.bind rest) (explicit.bind rest)

end TileLayout

/-! ## Headers -/

theorem FrameDimensions.write_widens (dimensions : FrameDimensions) : Widens dimensions.write :=
  (Field.write_widens _ _).bind fun _ => (Field.write_widens _ _).bind fun _ =>
    (Field.write_widens _ _).bind fun _ => Field.write_widens _ _

theorem SequenceHeader.writeWithDimensions_widens (sequence : SequenceHeader) (payload : Bytes)
    (width height : Nat) : Widens (sequence.writeWithDimensions payload width height) :=
  (Widens.lift _).bind fun target => (Widens.lift _).bind fun _ => .ite (.throw_bind _ _)
    ((copy_widens _ _ _).bind fun _ => target.dimensions.write_widens.bind fun _ =>
      (copy_widens _ _ _).bind fun _ => .pure _)

namespace FrameHeader

theorem replace_widens (payload : Bytes) (start : Nat) (span : Option BitSpan)
    {element : Write Unit} (widens : Widens element) :
    Widens (replace payload start span element) := by
  cases span with
  | none => exact .pure _
  | some span => exact (copy_widens _ _ _).bind fun _ => widens.bind fun _ => .pure _

theorem writeResized_widens (frame : FrameHeader) (payload : Bytes) (target : SequenceHeader) :
    Widens (frame.writeResized payload target) := by
  have size : Widens (writeSize target) :=
    (Field.write_widens _ _).bind fun _ => Field.write_widens _ _
  exact (replace_widens _ _ _ size).bind fun _ => replace_widens _ _ _ (bit_widens _)

theorem writeRewritten_widens (frame : FrameHeader) (payload : Bytes)
    (target : Option SequenceHeader) (layout : TileLayout) :
    Widens (frame.writeRewritten payload target layout) := by
  refine (Widens.liftEmit _).bind fun stop => (?_ : Widens _)
  cases frame.layoutSpan with
  | none => exact (copy_widens _ _ _).emit
  | some span =>
    have back := (copy_widens payload span.stop stop).emit
    have front (next : Nat) := (copy_widens payload next span.start).emit.bind fun _ =>
      Widens.ite (p := frame.layout = some layout)
        ((copy_widens payload span.start span.stop).emit.bind fun _ => back)
        (layout.write_widens.emit.bind fun _ => back)
    refine .ite (.throw_bind _ _) ?_
    cases target with
    | none => exact (Widens.pure 0).bind front
    | some target => exact (frame.writeResized_widens payload target).emit.bind front

end FrameHeader

end Av1Tiling
