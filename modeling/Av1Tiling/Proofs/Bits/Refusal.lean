import Av1Tiling.Proofs.Bits.Calls

/-!
# Refused bytes

A writer counts the bits that were written, and as long as no byte is refused in the middle these are
the bits that it has (`Counted`), also behind calls that have failed. A byte is refused in the middle
where it is completed by a single bit and its buffer is full. It is not taken back then (`Jammed`):
the writer never gets to the next byte. Zeros that are still written are counted but go nowhere, and
a one or filling up the byte is a fault, behind which there is no writer.
-/

namespace Av1Tiling

namespace WriteCall

/-- What the call leaves behind, also where it is refused. A fault leaves nothing. -/
def behind? (call : WriteCall) (writer : BitWriter) : Option BitWriter :=
  match call.run writer with
  | .ok _ behind => some behind
  | .error (.raised _) behind => some behind
  | .error (.fault _) _ => none

/-- The call fails for lack of room, and not between two bytes. -/
def Breaks (call : WriteCall) (writer : BitWriter) : Prop :=
  match call.run writer with
  | .ok _ _ => False
  | .error (.raised error) behind => error.kind = .writeZero ∧ behind.aligned = false
  | .error (.fault _) _ => False

instance (call : WriteCall) (writer : BitWriter) : Decidable (call.Breaks writer) := by
  unfold Breaks
  split
  · exact inferInstanceAs (Decidable False)
  · exact inferInstanceAs (Decidable (_ ∧ _))
  · exact inferInstanceAs (Decidable False)

end WriteCall

namespace BitWriter

/-- The writer behind some calls, each of which may have been refused, unless one of them was a
    fault. -/
def after (writer : BitWriter) : List WriteCall → Option BitWriter
  | [] => some writer
  | call :: rest => (call.behind? writer).bind fun behind => behind.after rest

/-- None of the calls is refused a byte in the middle of it. -/
def Unbroken (writer : BitWriter) : List WriteCall → Prop
  | [] => True
  | call :: rest =>
    ¬ call.Breaks writer ∧
      match call.behind? writer with
      | some behind => behind.Unbroken rest
      | none => True

instance decidableUnbroken (writer : BitWriter) :
    (calls : List WriteCall) → Decidable (writer.Unbroken calls)
  | [] => .isTrue trivial
  | call :: rest =>
    have : Decidable (match call.behind? writer with
        | some behind => behind.Unbroken rest
        | none => True) :=
      match call.behind? writer with
      | some behind => behind.decidableUnbroken rest
      | none => .isTrue trivial
    inferInstanceAs (Decidable (_ ∧ _))

/-- No byte was refused in the middle, and what was counted behind `front` bits is there. -/
structure Counted (front : Nat) (writer : BitWriter) : Prop extends writer.Tight where
  written : writer.written + front = writer.bits.length

/-- A byte was refused in the middle. Its eight bits, of which one was not counted, and all behind
    them stay pending, up to as many as a byte can count. -/
structure Jammed (front : Nat) (writer : BitWriter) : Prop where
  full : writer.buffer.size = writer.buffer.capacity
  pending : 8 ≤ writer.pending.length
  few : writer.pending.length ≤ 255
  written : writer.written + front + 1 = writer.bits.length

/-- The writer is between two bytes where it has counted whole bytes, and only there. What it has
    counted are the bytes in its buffer and less than one more. -/
structure Coherent (writer : BitWriter) : Prop where
  aligned : writer.aligned = true ↔ writer.written % 8 = 0
  written : ∃ pending < 8, writer.written = 8 * writer.buffer.size + pending

/-- Nothing has changed that can be seen from outside. -/
structure LooksLike (writer other : BitWriter) : Prop where
  written : other.written = writer.written
  aligned : other.aligned = writer.aligned
  buffer : other.buffer = writer.buffer

variable {front : Nat} {writer : BitWriter}

theorem counted_empty (capacity : Nat) : (empty capacity).Counted 0 :=
  { tight_empty capacity with written := rfl }

theorem aligned_eq_false_of_pending (some : writer.pending ≠ []) : writer.aligned = false := by
  rw [aligned, List.isEmpty_eq_false_iff]
  exact some

theorem Counted.coherent (counted : writer.Counted 0) : writer.Coherent := by
  have pending := counted.pending
  have written := counted.written
  rw [length_bits, Nat.add_zero] at written
  refine ⟨?_, writer.pending.length, pending, written⟩
  rw [aligned, List.isEmpty_iff_length_eq_zero, written]
  omega

theorem Jammed.unaligned (jammed : writer.Jammed front) : writer.aligned = false := by
  apply aligned_eq_false_of_pending
  intro none
  have pending := jammed.pending
  rw [none] at pending
  contradiction

end BitWriter

namespace Write

open BitWriter

variable {front : Nat} {writer : BitWriter}

/-! ## One bit -/

theorem bit_counted (value : Bool) (counted : writer.Counted front) :
    match bit value writer with
    | .ok _ behind => behind.Counted front
    | .error (.raised error) behind => behind.Jammed front ∧ error.kind = .writeZero
    | .error (.fault _) _ => False := by
  obtain ⟨⟨pending, size⟩, written⟩ := counted
  rw [length_bits] at written
  by_cases last : writer.pending.length = 7
  · simp only [bit, if_pos last]
    cases taken : writer.buffer.refusal 1 with
    | some refused =>
      have full : ¬ writer.buffer.size + 1 ≤ writer.buffer.capacity := by
        intro fits
        rw [(refusal_eq_none_iff size).2 fits] at taken
        cases taken
      refine ⟨⟨by dsimp only; omega, ?_, ?_, ?_⟩, refusal_kind taken⟩
      · simp [last]
      · simp [last]
      · simp only [length_bits, List.length_append, List.length_singleton]
        omega
    | none =>
      have fits := (refusal_eq_none_iff size).1 taken
      refine ⟨⟨Nat.zero_lt_succ 7, ?_⟩, ?_⟩
      · rw [BoundedBuffer.size_push]
        exact fits
      · simp only [length_bits, BoundedBuffer.size_push, List.length_singleton, List.length_nil]
        omega
  · simp only [bit, if_neg last]
    rw [if_neg (by omega)]
    refine ⟨⟨?_, size⟩, ?_⟩
    · simp only [List.length_append, List.length_singleton]
      omega
    · simp only [length_bits, List.length_append, List.length_singleton]
      omega

theorem bit_jammed (value : Bool) : Maintains (Jammed front) (bit value) := by
  intro writer jammed
  have pending := jammed.pending
  have few := jammed.few
  have written := jammed.written
  rw [bit, if_neg (by omega)]
  by_cases stuck : 7 < writer.pending.length ∧ (value = true ∨ writer.pending.length = 255)
  · rw [if_pos stuck]
    exact ⟨trivial, jammed⟩
  · rw [if_neg stuck]
    refine ⟨trivial, jammed.full, ?_, ?_, ?_⟩
    · simp only [List.length_append, List.length_singleton]
      omega
    · simp only [List.length_append, List.length_singleton]
      omega
    · simp only [length_bits, List.length_append, List.length_singleton] at written ⊢
      omega

/-- A jam outlasts everything. -/
theorem jammed_lasting (front : Nat) : Lasting (Jammed front) where
  bit := bit_jammed
  put writer data jammed aligned _ := by
    have pending := jammed.pending
    rw [aligned] at pending
    contradiction

/-- A bit that is refused leaves the writer as it looked. All eight bits of its byte are pending
    now. -/
theorem bit_eq_raised {value : Bool} {error : StreamError} {behind : BitWriter}
    (run : bit value writer = .error (.raised error) behind) :
    writer.LooksLike behind ∧ error.kind = .writeZero ∧ behind.pending.length = 8 := by
  by_cases last : writer.pending.length = 7
  · simp only [bit, if_pos last] at run
    cases taken : writer.buffer.refusal 1 with
    | none =>
      rw [taken] at run
      cases run
    | some refused =>
      rw [taken] at run
      cases run
      have before : writer.pending ≠ [] := by
        intro none
        rw [none] at last
        contradiction
      refine ⟨⟨rfl, ?_, rfl⟩, refusal_kind taken, by simp [last]⟩
      rw [aligned_eq_false_of_pending before]
      exact aligned_eq_false_of_pending (by simp)
  · simp only [bit, if_neg last] at run
    split at run
    · cases run
    · cases run

/-- Behind a refused byte a zero is counted but does not get anywhere. -/
theorem bit_false_of_pending (some : 8 ≤ writer.pending.length)
    (few : writer.pending.length < 255) :
    bit false writer = .ok ()
      { writer with pending := writer.pending ++ [false], written := writer.written + 1 } := by
  rw [bit, if_neg (by omega), if_neg]
  rintro ⟨-, one | far⟩
  · cases one
  · omega

/-- Behind a refused byte a one leaves its range. -/
theorem bit_true_of_pending (some : 8 ≤ writer.pending.length) :
    bit true writer = .error (.fault .refusedByte) writer := by
  rw [bit, if_neg (by omega), if_pos ⟨by omega, .inl rfl⟩]

/-- As many zeros as a byte can count are one too many. -/
theorem fill_faults (count : Nat) (some : 8 ≤ writer.pending.length)
    (few : writer.pending.length ≤ 255) (far : writer.pending.length + count = 256) :
    ∃ last, fill false count writer = .error (.fault .refusedByte) last := by
  induction count generalizing writer with
  | zero => omega
  | succ count ih =>
    rw [fill]
    by_cases stuck : writer.pending.length = 255
    · have fault : bit false writer = .error (.fault .refusedByte) writer := by
        rw [bit, if_neg (by omega), if_pos ⟨by omega, .inr stuck⟩]
      exact ⟨writer, Step.bind_of_error fault⟩
    · rw [Step.bind_of_ok (bit_false_of_pending some (by omega))]
      apply ih
      · simp only [List.length_append, List.length_singleton]
        omega
      · simp only [List.length_append, List.length_singleton]
        omega
      · simp only [List.length_append, List.length_singleton]
        omega

/-- The last byte cannot be filled up behind a refused one. -/
theorem finish_jammed (jammed : writer.Jammed front) :
    ∃ last, finish writer = .error (.fault .refusedByte) last := by
  have pending := jammed.pending
  have few := jammed.few
  obtain ⟨last, fault⟩ := fill_faults (256 - writer.pending.length) pending few (by omega)
  have aligning : align writer = .error (.fault .refusedByte) last := by
    rw [align, Step.get_bind, if_neg (by omega)]
    exact fault
  exact ⟨last, Step.bind_of_error aligning⟩

/-! ## One call -/

theorem row_counted (used : Bits) (counted : writer.Counted front) :
    match used.forM bit writer with
    | .ok _ behind => behind.Counted front
    | .error (.raised error) behind => behind.Jammed front ∧ error.kind = .writeZero
    | .error (.fault _) _ => False := by
  induction used generalizing writer with
  | nil => exact counted
  | cons value rest ih =>
    have first := bit_counted value counted
    have split : (value :: rest).forM bit = bit value >>= fun _ => rest.forM bit := rfl
    rw [split]
    cases run : bit value writer with
    | ok _ between =>
      rw [run] at first
      rw [Step.bind_of_ok run]
      exact ih first
    | error cause behind =>
      rw [run] at first
      rw [Step.bind_of_error run]
      exact first

/-- A call on a writer that counts what it has is no fault. Unless it breaks off in a byte, the
    writer goes on counting. -/
theorem call_counted (call : WriteCall) (counted : writer.Counted front) :
    ∃ behind, call.behind? writer = some behind ∧
      if call.Breaks writer then behind.Jammed front else behind.Counted front := by
  rcases run_cases call writer with ⟨used, same⟩ | ⟨data, aligned, same⟩ | ⟨error, other, same⟩
  · have row := row_counted used counted
    cases run : used.forM bit writer with
    | ok _ behind =>
      rw [run] at same row
      exact ⟨behind, by rw [WriteCall.behind?, same], by simpa [WriteCall.Breaks, same] using row⟩
    | error cause behind =>
      rw [run] at same row
      cases cause with
      | fault cause => exact row.elim
      | raised error =>
        obtain ⟨jammed, full⟩ := row
        refine ⟨behind, by rw [WriteCall.behind?, same], ?_⟩
        simpa [WriteCall.Breaks, same, full, jammed.unaligned] using jammed
  · have between : writer.aligned = true := by simp [BitWriter.aligned, aligned]
    rw [bytes_of_aligned aligned] at same
    cases taken : writer.buffer.refusal data.length with
    | some refused =>
      rw [taken] at same
      refine ⟨writer, by rw [WriteCall.behind?, same], ?_⟩
      simpa [WriteCall.Breaks, same, between] using counted
    | none =>
      rw [taken] at same
      have fits := (refusal_eq_none_iff counted.size).1 taken
      have written := counted.written
      have more : (writer.put data).Counted front := by
        rw [length_bits] at written
        refine ⟨⟨counted.pending, ?_⟩, ?_⟩
        · rw [put, BoundedBuffer.size_push]
          exact fits
        · simp only [length_bits, put, BoundedBuffer.size_push]
          omega
      refine ⟨writer.put data, by rw [WriteCall.behind?, same], ?_⟩
      simpa [WriteCall.Breaks, same] using more
  · refine ⟨writer, by rw [WriteCall.behind?, same], ?_⟩
    simpa [WriteCall.Breaks, same, other] using counted

end Write

namespace BitWriter

variable {front : Nat} {writer behind : BitWriter} {calls : List WriteCall}

/-! ## All calls -/

theorem Jammed.call {call : WriteCall} (jammed : writer.Jammed front)
    (found : call.behind? writer = some behind) : behind.Jammed front := by
  have known := (Write.jammed_lasting front).call call writer jammed
  rw [WriteCall.behind?] at found
  cases run : call.run writer with
  | ok _ next =>
    rw [run] at known found
    rw [← Option.some.inj found]
    exact known.2
  | error cause next =>
    rw [run] at known found
    cases cause with
    | raised error =>
      rw [← Option.some.inj found]
      exact known.2
    | fault cause => cases found

theorem Jammed.after (jammed : writer.Jammed front) (reached : writer.after calls = some behind) :
    behind.Jammed front := by
  induction calls generalizing writer with
  | nil => rwa [← Option.some.inj reached]
  | cons call rest ih =>
    obtain ⟨next, first, later⟩ := Option.bind_eq_some_iff.1 reached
    exact ih (jammed.call first) later

theorem unbroken_cons {call : WriteCall} {rest : List WriteCall}
    (found : call.behind? writer = some behind) (whole : ¬ call.Breaks writer) :
    writer.Unbroken (call :: rest) ↔ behind.Unbroken rest := by
  rw [Unbroken, found]
  exact and_iff_right whole

/-- A run that is never refused a byte in the middle comes to its end, and counts what it has. -/
theorem Counted.after (counted : writer.Counted front) (unbroken : writer.Unbroken calls) :
    ∃ behind, writer.after calls = some behind ∧ behind.Counted front := by
  induction calls generalizing writer with
  | nil => exact ⟨writer, rfl, counted⟩
  | cons call rest ih =>
    obtain ⟨next, first, known⟩ := Write.call_counted call counted
    rw [if_neg unbroken.1] at known
    obtain ⟨last, later, counted'⟩ := ih known ((unbroken_cons first unbroken.1).1 unbroken)
    exact ⟨last, Option.bind_eq_some_iff.2 ⟨next, first, later⟩, counted'⟩

/-- Any other run that comes to its end is jammed. -/
theorem Counted.jammed_after (counted : writer.Counted front)
    (broken : ¬ writer.Unbroken calls) (reached : writer.after calls = some behind) :
    behind.Jammed front := by
  induction calls generalizing writer with
  | nil => exact absurd trivial broken
  | cons call rest ih =>
    obtain ⟨next, first, later⟩ := Option.bind_eq_some_iff.1 reached
    obtain ⟨_, same, known⟩ := Write.call_counted call counted
    obtain rfl := Option.some.inj (first.symm.trans same)
    by_cases breaks : call.Breaks writer
    · rw [if_pos breaks] at known
      exact known.after later
    · rw [if_neg breaks] at known
      rw [unbroken_cons first breaks] at broken
      exact ih known broken later

/-- Any calls, refused ones included. If none of them is refused a byte in the middle there is a
    writer behind them, which counts what it has. A writer behind others is jammed for good, and
    cannot be finished any more. A bit that is refused never changes how the writer looks, but it
    has jammed the writer: once more, a zero is counted and goes nowhere, and a one leaves its
    range. -/
theorem after_coherent (capacity : Nat) (calls : List WriteCall) :
    ((empty capacity).Unbroken calls →
      ∃ writer, (empty capacity).after calls = some writer ∧ writer.Coherent) ∧
    ∀ writer, (empty capacity).after calls = some writer →
      (¬ (empty capacity).Unbroken calls → writer.Jammed 0 ∧
        ∃ last, Write.finish writer = .error (.fault .refusedByte) last) ∧
      ∀ value error behind, Write.bit value writer = .error (.raised error) behind →
        writer.LooksLike behind ∧ error.kind = .writeZero ∧
          Write.bit true behind = .error (.fault .refusedByte) behind ∧
          Write.bit false behind = .ok ()
            { behind with
              pending := behind.pending ++ [false], written := behind.written + 1 } := by
  have start := counted_empty capacity
  refine ⟨?_, fun writer reached => ⟨?_, ?_⟩⟩
  · intro unbroken
    obtain ⟨writer, reached, counted⟩ := start.after unbroken
    exact ⟨writer, reached, counted.coherent⟩
  · intro broken
    have jammed := start.jammed_after broken reached
    exact ⟨jammed, Write.finish_jammed jammed⟩
  · intro value error behind run
    obtain ⟨same, kind, eight⟩ := Write.bit_eq_raised run
    exact ⟨same, kind, Write.bit_true_of_pending (Nat.le_of_eq eight.symm),
      Write.bit_false_of_pending (Nat.le_of_eq eight.symm) (by omega)⟩

/-- Three bytes where two fit, which are refused between two bytes, and then eleven bits. -/
def refusedWhole : List WriteCall := [.bytes [0xAA, 0xBB, 0xCC], .bits 5 3, .bytes [0xAB]]

/-- Eight bits where no byte fits, and one more. -/
def refusedLast : List WriteCall := [.bits 0 7, .bit false, .bit false]

theorem after_coherent_refused :
    ((empty 2).Unbroken refusedWhole ∧
      ∃ writer, (empty 2).after refusedWhole = some writer ∧ writer.Coherent) ∧
    (¬ (empty 0).Unbroken refusedLast ∧
      ∃ writer, (empty 0).after refusedLast = some writer ∧ writer.Jammed 0 ∧
        ∃ last, Write.finish writer = .error (.fault .refusedByte) last) ∧
    ∃ writer behind, (empty 0).after [.bits 0 7] = some writer ∧
      Write.bit true writer = .error (.raised (.bufferFull 1 0 0)) behind ∧
      writer.LooksLike behind ∧ Write.bit true behind = .error (.fault .refusedByte) behind := by
  have unbroken : (empty 2).Unbroken refusedWhole := by decide +kernel
  have broken : ¬ (empty 0).Unbroken refusedLast := by decide +kernel
  obtain ⟨coherent, -⟩ := after_coherent 2 refusedWhole
  obtain ⟨-, jammed⟩ := after_coherent 0 refusedLast
  obtain ⟨-, failed⟩ := after_coherent 0 [.bits 0 7]
  obtain ⟨same, -, again, -⟩ := (failed _ rfl).2 true (.bufferFull 1 0 0) _ rfl
  exact ⟨⟨unbroken, coherent unbroken⟩, ⟨broken, _, rfl, (jammed _ rfl).1 broken⟩, _, _, rfl, rfl,
    same, again⟩

/-- A coherent writer that a bit which is refused leaves as it looks, and where the same bit is
    refused once more. -/
structure Intact (writer : BitWriter) : Prop extends writer.Coherent where
  refused : ∀ value error behind, Write.bit value writer = .error (.raised error) behind →
    writer.LooksLike behind ∧
      ∃ again last, Write.bit value behind = .error (.raised again) last

/-- The zero that completes a byte is refused, and the next time it is not. The writer then has
    counted a whole byte, is not between two bytes, has none, and is a fault to finish. -/
theorem not_intact :
    (∃ writer, (empty 0).after [.bits 0 7] = some writer ∧ ¬ writer.Intact) ∧
      ∃ writer, (empty 0).after refusedLast = some writer ∧ ¬ writer.Coherent ∧
        ∃ last, Write.finish writer = .error (.fault .refusedByte) last := by
  refine ⟨⟨_, rfl, fun intact => ?_⟩, ⟨_, rfl, fun coherent => ?_, ?_⟩⟩
  · obtain ⟨-, again, last, run⟩ := intact.refused false (.bufferFull 1 0 0) _ rfl
    cases run
  · have aligned := coherent.aligned.2 (by decide +kernel)
    revert aligned
    decide +kernel
  · have broken : ¬ (empty 0).Unbroken refusedLast := by decide +kernel
    exact Write.finish_jammed ((counted_empty 0).jammed_after broken rfl)

end BitWriter

end Av1Tiling
