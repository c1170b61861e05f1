import Av1Tiling.Proofs.Bits.Safety
import Av1Tiling.Proofs.Code.Growth

/-!
# Writes without faults

A write that fails before any byte was refused fails for a reason that is no fault (`Write.Safe`):
there is no room, or the value has no code. Behind a refused byte nothing is said, as there a one
would be a fault; but no writer goes on behind one.
-/

namespace Av1Tiling

namespace Write

variable {α : Type}

/-- From a writer that has refused no byte, `step` yields a value with `yields` and leaves such a
    writer, or fails and not for a fault. -/
abbrev Safe (step : Write α) (yields : α → Prop) : Prop :=
  Step.Keeps BitWriter.Tight (¬ Failure.IsFault ·) step yields

/-- A step that only adds bits is safe as soon as it does not fail for a fault. -/
theorem Grows.safe {step : Write α} {adds : Bits → Prop} (grows : Grows step adds)
    (failure : ∀ writer cause behind, writer.Tight → step writer = .error cause behind →
      ¬ cause.IsFault) : Safe step fun _ => True :=
  .intro (fun writer value behind tight run => ⟨trivial, (grows writer value behind tight run).1⟩)
    failure

/-- A computation with errors only writes nothing. -/
theorem Safe.lift {result : Except StreamError α} {yields : α → Prop}
    (success : ∀ value, result = .ok value → yields value) : Safe (liftM result) yields := by
  cases result with
  | ok value => exact Step.Keeps.pure (success value rfl)
  | error error => exact Step.Keeps.throw (Failure.not_isFault_raised error)

/-- A computation in range writes nothing. -/
theorem Safe.liftFault {result : Except Fault α} {yields : α → Prop}
    (gives : Checked.Gives result yields) : Safe (liftM result) yields := by
  rcases gives with ⟨value, rfl, known⟩
  exact Step.Keeps.pure known

theorem bit_safe (value : Bool) : Safe (bit value) fun _ => True := by
  refine (bit_grows value).safe fun writer cause behind tight run => ?_
  have pending := tight.pending
  rw [bit] at run
  by_cases last : writer.pending.length = 7
  · simp only [if_pos last] at run
    cases refused : writer.buffer.refusal 1 with
    | none =>
      simp only [refused] at run
      cases run
    | some other =>
      simp only [refused] at run
      cases run
      exact Failure.not_isFault_raised other
  · -- only behind a refused byte are there eight bits
    have few : ¬(7 < writer.pending.length ∧ (value = true ∨ writer.pending.length = 255)) := by
      omega
    simp only [if_neg last, if_neg few] at run
    cases run

theorem each_bit_safe (used : Bits) : Safe (used.forM bit) fun _ => True :=
  .forM fun value _ => bit_safe value

theorem fill_safe (value : Bool) (count : Nat) : Safe (fill value count) fun _ => True := by
  induction count with
  | zero => exact .pure trivial
  | succ count ih => exact (bit_safe value).bind fun _ _ => ih

theorem bits_safe (value count : Nat) : Safe (bits value count) fun _ => True := by
  refine .ite (fun _ => .throw ?_) fun _ => each_bit_safe _
  exact Failure.not_isFault_raised _

theorem align_safe : Safe align fun _ => True := by
  refine .get_bind fun writer tight => ?_
  rw [if_pos tight.pending]
  exact fill_safe false _

theorem bytes_safe (data : Bytes) : Safe (bytes data) fun _ => True := by
  refine (bytes_grows data).safe fun writer cause behind tight run => ?_
  have each : Safe (data.forM fun byte => bits byte.toNat 8) fun _ => True :=
    .forM fun byte _ => bits_safe byte.toNat 8
  rw [bytes, Step.get_bind] at run
  split at run
  · rcases Step.bind_eq_error.1 run with pushed | ⟨_, _, -, counted⟩
    · rw [push] at pushed
      cases refused : writer.buffer.refusal data.length with
      | none =>
        rw [refused] at pushed
        cases pushed
      | some other =>
        rw [refused] at pushed
        cases pushed
        exact Failure.not_isFault_raised other
    · cases counted
  · exact each.of_error tight run

theorem copy_safe (source : Bytes) (start stop : Nat) :
    Safe (copy source start stop) fun _ => True := by
  rw [copy_eq]
  refine .ite (fun _ => .throw_bind ?_) fun _ => .get_bind fun _ _ =>
    .ite (fun _ => bytes_safe _) fun _ => each_bit_safe _
  exact Failure.not_isFault_raised _

end Write

open Write

/-! ## Codes and fields -/

theorem LittleEndian.write_safe (value size : Nat) : Safe (write value size) fun _ => True := by
  refine .ite (fun _ => .throw_bind ?_) fun _ => .forM fun byte _ => bits_safe byte.toNat 8
  exact Failure.not_isFault_raised _

theorem Leb128.write_safe (value : Nat) : Safe (write value) fun _ => True :=
  (Step.Keeps.forM fun byte _ => bytes_safe [byte]).bind fun _ _ => .pure trivial

theorem Uvlc.write_safe (value min max : Nat) : Safe (write value min max) fun _ => True := by
  have legal : Safe (liftM (check value min max)) fun _ => True :=
    .lift fun _ _ => trivial
  exact legal.bind fun _ _ => .ite (fun _ => (bits_safe _ _).bind fun _ _ => bit_safe _) fun _ =>
    (bits_safe _ _).bind fun _ _ => bits_safe _ _

theorem NonSymmetric.write_safe (value bound : Nat) : Safe (write value bound) fun _ => True := by
  have shaped : Safe (liftM (shape bound)) fun _ => True :=
    .lift fun _ _ => trivial
  refine shaped.bind fun _ _ => .ite (fun _ => .throw_bind ?_) fun _ =>
    .ite (fun _ => bits_safe _ _) fun _ => (bits_safe _ _).bind fun _ _ => bit_safe _
  exact Failure.not_isFault_raised _

theorem Increment.write_safe (value min max : Nat) :
    Safe (write value min max) fun _ => True := by
  refine .ite (fun _ => .throw_bind ?_) fun _ => (fill_safe _ _).bind fun _ _ =>
    .ite (fun _ => bit_safe _) fun _ => .pure trivial
  exact Failure.not_isFault_raised _

theorem Subexp.write_safe (value bound : Nat) : Safe (write value bound) fun _ => True := by
  have last : Safe (liftM (lastBin bound)) fun _ => True :=
    .lift fun _ _ => trivial
  refine last.bind fun _ _ => .ite (fun _ => .throw_bind ?_) fun _ =>
    (Increment.write_safe _ _ _).bind fun _ _ => .ite (fun _ => bits_safe _ _) fun _ =>
      NonSymmetric.write_safe _ _
  exact Failure.not_isFault_raised _

namespace Field

theorem writeCode_safe (field : Field) (value : Nat) :
    Safe (field.writeCode value) fun _ => True := by
  rw [writeCode]
  cases field.coding with
  | bits count => exact bits_safe _ _
  | littleEndian size => exact LittleEndian.write_safe _ _
  | leb128 => exact (Leb128.write_safe _).bind fun _ _ => .pure trivial
  | uvlc => exact Uvlc.write_safe _ _ _
  | nonSymmetric bound => exact NonSymmetric.write_safe _ _
  | increment => exact Increment.write_safe _ _ _
  | subexp bound => exact Subexp.write_safe _ _

theorem write_safe (field : Field) (value : Nat) : Safe (field.write value) fun _ => True := by
  have legal : Safe (liftM (field.check value)) fun _ => True :=
    .lift fun _ _ => trivial
  exact legal.bind fun _ _ => field.writeCode_safe value

end Field

end Av1Tiling
