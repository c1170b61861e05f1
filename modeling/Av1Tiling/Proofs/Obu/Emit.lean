import Av1Tiling.Obu.Emit
import Av1Tiling.Proofs.Bits.Growth

/-!
# What is emitted

Steps that write OBUs take over what the steps of their bits write. A payload is closed by a one and
the zeros that fill up its last byte, and what is finished then are the bytes of just these bits.
-/

namespace Av1Tiling

namespace Write

/-- A step of bits is a step of OBUs that writes the same. -/
theorem Appends.emit {α : Type} {step : Write α} {bits : Bits} {value : α}
    (appends : Appends step bits value) : Appends (liftM step : Emit α) bits value := by
  intro writer room
  obtain ⟨behind, run, extends_⟩ := appends writer room
  refine ⟨behind, ?_, extends_⟩
  simp only [liftM, monadLift, MonadLift.monadLift, run]

end Write

namespace Emit

theorem lift_bind {α β : Type} {result : Except StreamError α} {value : α}
    (success : result = .ok value) (next : α → Emit β) :
    ((liftM result : Emit α) >>= next) = next value := by
  rw [success]
  rfl

theorem lift_eq_ok {α : Type} {result : Except StreamError α} {writer behind : BitWriter}
    {value : α} : (liftM result : Emit α) writer = .ok value behind ↔
      result = .ok value ∧ behind = writer := by
  cases result with
  | error cause =>
    constructor
    · rintro ⟨⟩
    · rintro ⟨⟨⟩, -⟩
  | ok found =>
    constructor
    · rintro ⟨⟩
      exact ⟨rfl, rfl⟩
    · rintro ⟨⟨⟩, rfl⟩
      rfl

theorem emit_eq_ok {α : Type} {step : Write α} {writer behind : BitWriter} {value : α} :
    (liftM step : Emit α) writer = .ok value behind ↔ step writer = .ok value behind := by
  simp only [liftM, monadLift, MonadLift.monadLift]
  cases step writer with
  | ok found last => simp
  | error cause last => simp

/-- The bits that close a payload of `count` bits. -/
def closing (count : Nat) : Bits :=
  true :: Write.padding (count + 1)

theorem length_closing (count : Nat) :
    (count + (closing count).length) % 8 = 0 ∧ (closing count).length ≤ 8 := by
  simp only [closing, Write.padding, List.length_cons, List.length_replicate]
  omega

/-- A payload is closed with its last byte. -/
theorem trailingBits_extends {writer : BitWriter}
    (room : writer.Room (closing writer.bits.length).length) :
    ∃ behind, trailingBits writer = .ok () behind ∧
      writer.Extends (closing writer.bits.length) behind := by
  have cons : closing writer.bits.length = [true] ++ Write.padding (writer.bits.length + 1) := rfl
  rw [cons, List.length_append] at room
  obtain ⟨between, first, extends₁⟩ :=
    Write.bit_appends true writer (room.mono (Nat.le_add_right ..))
  have length : between.bits.length = writer.bits.length + 1 := by
    rw [extends₁.bits, List.length_append, List.length_singleton]
  have room' := extends₁.room room
  rw [← length] at room'
  obtain ⟨behind, second, extends₂⟩ := Write.align_extends room'
  rw [length] at extends₂
  refine ⟨behind, ?_, extends₁.trans extends₂⟩
  exact (Step.bind_of_ok (emit_eq_ok.2 first)).trans (emit_eq_ok.2 second)

/-- Behind whole bytes nothing is filled up. -/
theorem finish_of_whole {writer : BitWriter} (ready : writer.pending.length < 8)
    (whole : writer.bits.length % 8 = 0) :
    finish writer = .ok writer.contents writer ∧ Bits.ofBytes writer.contents = writer.bits := by
  have none : writer.pending = [] := by
    apply List.eq_nil_of_length_eq_zero
    rw [BitWriter.pending_length ready, whole]
  have aligned : Write.align writer = .ok () writer := by
    rw [Write.align, Step.get_bind, none]
    rfl
  have done : Write.finish writer = .ok writer.buffer writer :=
    Step.bind_of_ok aligned
  refine ⟨?_, by rw [BitWriter.bits, none, List.append_nil]⟩
  exact Step.bind_of_ok (emit_eq_ok.2 done)

/-- What has been written is closed with its last byte and finished. -/
theorem finish_extends {writer : BitWriter}
    (room : writer.Room (closing writer.bits.length).length) :
    ∃ output behind, (trailingBits >>= fun _ => finish) writer = .ok output behind ∧
      Bits.ofBytes output = writer.bits ++ closing writer.bits.length := by
  obtain ⟨closed, first, extends_⟩ := trailingBits_extends room
  have total : closed.bits = writer.bits ++ closing writer.bits.length := extends_.bits
  have even : closed.bits.length % 8 = 0 := by
    rw [total, List.length_append]
    exact (length_closing writer.bits.length).1
  obtain ⟨second, same⟩ := finish_of_whole extends_.pending even
  refine ⟨closed.contents, closed, ?_, same.trans total⟩
  rw [Step.bind_of_ok first, second]

/-- A step that writes from the start, and what comes out once its bits are closed. -/
theorem finish_written {ε α : Type} {step : EStateM ε BitWriter α} {content : Bits} {value : α}
    (appends : Write.Appends step content value) {capacity : Nat}
    (room : content.length < 8 * capacity) :
    ∃ written output behind, step (.empty capacity) = .ok value written ∧
      (trailingBits >>= fun _ => finish) written = .ok output behind ∧
      Bits.ofBytes output = content ++ closing content.length := by
  obtain ⟨whole, short⟩ := length_closing content.length
  have fits : (content.length + (closing content.length).length) < 8 * (capacity + 1) := by omega
  have room' : (BitWriter.empty capacity).Room
      (content.length + (closing content.length).length) := .empty fits
  obtain ⟨written, first, extends_⟩ := appends _ (room'.mono (Nat.le_add_right ..))
  have bits : written.bits = content := by
    rw [extends_.bits]
    rfl
  have room'' := extends_.room room'
  rw [← bits] at room''
  obtain ⟨output, behind, second, total⟩ := finish_extends room''
  rw [bits] at total
  exact ⟨written, output, behind, first, second, total⟩

/-- What is written from the start, closed and finished. -/
theorem finish_closed {step : Emit Unit} {content : Bits} (appends : Write.Appends step content ())
    {capacity : Nat} (room : content.length < 8 * capacity) :
    ∃ output behind, (step >>= fun _ => trailingBits >>= fun _ => finish) (.empty capacity) =
        .ok output behind ∧ Bits.ofBytes output = content ++ closing content.length := by
  obtain ⟨written, output, behind, first, second, total⟩ := finish_written appends room
  refine ⟨output, behind, ?_, total⟩
  rw [Step.bind_of_ok first, second]

end Emit

/-- A step of bits is a step of OBUs that adds the same. -/
theorem Write.Grows.emit {α : Type} {step : Write α} {adds : Bits → Prop}
    (grows : Grows step adds) : Grows (liftM step : Emit α) adds :=
  fun writer value behind tight run => grows writer value behind tight (Emit.emit_eq_ok.1 run)

end Av1Tiling
