import Av1Tiling.Proofs.Code.Faultless
import Av1Tiling.Proofs.Obu.Reading
import Av1Tiling.Proofs.Obu.Written

/-!
# OBUs without faults

An OBU is written without a fault where its payload is. Its payload stands behind the room that was
left for its size, so the size is never below zero.
-/

namespace Av1Tiling

open Write

namespace Emit

variable {α : Type} {writer : BitWriter}

/-- From a writer that has refused no byte, `step` yields a value with `yields` and leaves such a
    writer, or fails and not for a fault. -/
abbrev Safe (step : Emit α) (yields : α → Prop) : Prop :=
  Step.Keeps BitWriter.Tight (¬ Failure.IsFault ·) step yields

/-- A step of bits is as safe among OBUs. -/
theorem safe_of_write {step : Write α} {yields : α → Prop} (safe : Write.Safe step yields) :
    Safe (liftM step) yields := by
  intro writer tight
  have known := safe writer tight
  simp only [liftM, monadLift, MonadLift.monadLift]
  cases run : step writer with
  | ok value behind =>
    rw [run] at known
    exact known
  | error cause behind =>
    rw [run] at known
    exact (not_congr Failure.isFault_map).2 known

/-- A computation with errors only writes nothing. -/
theorem Safe.lift {result : Except StreamError α} {yields : α → Prop}
    (success : ∀ value, result = .ok value → yields value) : Safe (liftM result) yields := by
  cases result with
  | ok value => exact Step.Keeps.pure (success value rfl)
  | error error => exact Step.Keeps.throw (Failure.not_isFault_raised _)

theorem requireAligned_safe (boundary : Boundary) :
    Safe (requireAligned boundary) fun _ => True := by
  exact .get_bind fun _ _ => .ite (fun _ => .pure trivial) fun _ =>
    .throw (Failure.not_isFault_raised _)

theorem reserveSize_safe : Safe reserveSize fun _ => True := by
  have word : Safe (liftM (Write.bytes (Bytes.ofNatBE 4 0))) fun _ => True :=
    safe_of_write (bytes_safe _)
  exact (requireAligned_safe _).bind fun _ _ => .get_bind fun _ _ => word.bind fun _ _ =>
    word.bind fun _ _ => .pure trivial

theorem trailingBits_safe : Safe trailingBits fun _ => True :=
  (safe_of_write (bit_safe true)).bind fun _ _ => safe_of_write align_safe

theorem rework_error {change : BoundedBuffer → Except StreamError BoundedBuffer}
    {cause : Failure ObuError} {behind : BitWriter}
    (run : rework change writer = .error cause behind) : ¬ cause.IsFault := by
  rw [rework, Step.get_bind] at run
  cases changed : change writer.buffer with
  | ok buffer =>
    rw [changed] at run
    cases run
  | error error =>
    rw [changed] at run
    cases run
    exact Failure.not_isFault_raised _

/-- Behind the room for a size, the size is that of what was written. -/
theorem finalizeSize_error {field : SizeField} {cause : Failure ObuError} {behind : BitWriter}
    (room : field.offset + reservation ≤ writer.buffer.size)
    (run : finalizeSize field writer = .error cause behind) : ¬ cause.IsFault := by
  rcases Step.bind_eq_error.1 run with first | ⟨_, _, first, run⟩
  · rw [requireAligned, Step.get_bind] at first
    split at first <;> cases first
    exact Failure.not_isFault_raised _
  obtain ⟨-, rfl⟩ := requireAligned_eq_ok first
  obtain ⟨stop, sized⟩ : ∃ stop, size writer = .ok stop writer ∧ stop = writer.buffer.size :=
    ⟨_, rfl, rfl⟩
  rw [Step.bind_of_ok sized.1, liftFault_bind (Checked.sub_eq_ok (sized.2 ▸ room))] at run
  split at run
  · cases run
    exact Failure.not_isFault_raised _
  rcases Step.bind_eq_error.1 run with first | ⟨_, _, -, run⟩
  · exact rework_error first
  rcases Step.bind_eq_error.1 run with first | ⟨_, _, -, run⟩
  · exact rework_error first
  rcases Step.bind_eq_error.1 run with first | ⟨_, _, -, run⟩
  · exact rework_error first
  · cases run

/-- The bytes in front of a size are made up aside, where there is always room. -/
theorem writeWithoutSize_safe {header : ObuHeader} (inRange : header.InRange) :
    Safe (liftM header.writeWithoutSize) fun _ => True := by
  have fixed := aside_eq (ObuHeader.writeFixed_appends inRange)
  rw [header.length_opening] at fixed
  apply safe_of_write
  rw [ObuHeader.writeWithoutSize, fixed]
  exact (Step.Keeps.forM fun byte _ => bytes_safe [byte]).bind fun _ _ => .pure trivial

theorem closed_safe {payload : Emit Unit} (safe : Safe payload fun _ => True) (trailing : Bool) :
    Safe (closed trailing payload) fun _ => True := by
  cases trailing with
  | false => exact safe.bind fun _ _ => .pure trivial
  | true => exact safe.bind fun _ _ => trailingBits_safe

theorem started_safe {header : ObuHeader} (inRange : header.InRange) :
    Safe (started header) fun _ => True :=
  (requireAligned_safe _).bind fun _ _ => (writeWithoutSize_safe inRange).bind fun _ _ =>
    reserveSize_safe

/-- Nothing that is written makes up less. -/
theorem size_le {front behind : BitWriter} {more : Bits} (extends_ : front.Extends more behind) :
    front.buffer.size ≤ behind.buffer.size := by
  have length := congrArg List.length extends_.bits
  have pending := extends_.pending
  rw [BitWriter.length_bits, List.length_append, BitWriter.length_bits] at length
  omega

theorem obu_safe {header : ObuHeader} (inRange : header.InRange) {trailing : Bool}
    {payload : Emit Unit} {adds : Bits → Prop} (grows : Grows payload adds)
    (safe : Safe payload fun _ => True) :
    Safe (obu header trailing payload) fun _ => True := by
  have ends := closed_grows grows trailing
  refine .intro (fun writer count behind tight run => ?_) fun writer cause behind tight run => ?_
  · obtain ⟨-, -, -, -, tight⟩ := obu_written inRange ends tight run
    exact ⟨trivial, tight⟩
  rcases obu_eq_error inRange tight run with run | ⟨-, room, run | ⟨third, run₂, run | ⟨-, run⟩⟩⟩
  · exact (started_safe inRange).of_error tight run
  · exact (closed_safe safe trailing).of_error (tight_handed tight room) run
  · obtain ⟨tight', -⟩ := ends _ _ _ (tight_handed tight room) run₂
    exact (requireAligned_safe _).of_error tight' run
  · -- the payload stands behind the room that was left for its size
    obtain ⟨-, more, -, extends_⟩ := ends _ _ _ (tight_handed tight room) run₂
    have behind := size_le extends_
    rw [size_handed] at behind
    exact finalizeSize_error behind run

theorem finish_safe : Safe finish fun _ => True := by
  have finished : Write.Safe Write.finish fun _ => True :=
    align_safe.bind fun _ _ => .get_bind fun _ _ => .pure trivial
  exact (safe_of_write finished).bind fun _ _ => .pure trivial

end Emit

end Av1Tiling
