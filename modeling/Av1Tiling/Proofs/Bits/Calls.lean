import Av1Tiling.Proofs.Bits.Widening

/-!
# Calls on a writer of bits

A writer is used by a few calls (`WriteCall`): a bit, a number, zeros up to the next byte, bytes, and
a part of other bytes. A call is a row of single bits, or whole bytes between two bytes, or it is
refused before anything is written (`run_cases`). So what outlasts every bit and whole bytes outlasts
every call, also one that fails (`Lasting`), and where a call succeeds it has added exactly its bits.
-/

namespace Av1Tiling

/-- A call on a writer of bits. -/
inductive WriteCall
  | bit (value : Bool)
  /-- The `count` lowest bits of `value`. -/
  | bits (value count : Nat)
  /-- Zeros up to the next byte. -/
  | align
  | bytes (data : Bytes)
  /-- The bits `start..stop` of `source`. -/
  | copy (source : Bytes) (start stop : Nat)
  deriving Repr, DecidableEq

namespace WriteCall

def run : WriteCall → Write Unit
  | bit value => Write.bit value
  | bits value count => Write.bits value count
  | align => Write.align
  | bytes data => Write.bytes data
  | copy source start stop => Write.copy source start stop

/-- The call asks for something that can be written. -/
def Valid : WriteCall → Prop
  | bits _ count => count ≤ 64
  | copy source start stop => start ≤ stop ∧ stop ≤ 8 * source.length
  | _ => True

/-- The bits that the call adds behind `pos` bits. -/
def code (pos : Nat) : WriteCall → Bits
  | bit value => [value]
  | bits value count => Bits.ofNat count value
  | align => Write.padding pos
  | bytes data => Bits.ofBytes data
  | copy source start stop => (⟨start, stop⟩ : BitSpan).of source

/-- The bits that some calls add behind `pos` bits, one behind the other. -/
def codes : (pos : Nat) → List WriteCall → Bits
  | _, [] => []
  | pos, call :: rest => call.code pos ++ codes (pos + (call.code pos).length) rest

/-- Some calls, up to the first that fails. -/
def runAll (calls : List WriteCall) : Write Unit :=
  calls.forM run

end WriteCall

namespace Write

variable {ε α : Type}

/-! ## Rows of bits -/

theorem fill_eq (value : Bool) (count : Nat) :
    fill value count = (List.replicate count value).forM bit := by
  induction count with
  | zero => rfl
  | succ count ih =>
    rw [fill, ih]
    rfl

theorem each_byte_eq (data : Bytes) :
    (data.forM fun byte => bits byte.toNat 8) = (Bits.ofBytes data).forM bit := by
  induction data with
  | nil => rfl
  | cons byte rest ih =>
    have split : (Bits.ofByte byte ++ Bits.ofBytes rest).forM bit =
        (Bits.ofByte byte).forM bit >>= fun _ => (Bits.ofBytes rest).forM bit := List.forM_append
    rw [Bits.ofBytes_cons, split, ← ih]
    rfl

theorem refusal_kind {buffer : BoundedBuffer} {count : Nat} {error : StreamError}
    (refused : buffer.refusal count = some error) : error.kind = .writeZero := by
  rw [BoundedBuffer.refusal] at refused
  split at refused
  · cases refused
    rfl
  · cases refused

/-- What a call can do: it writes bit by bit, or bytes between two bytes, or it asks for something
    that is never possible. -/
theorem run_cases (call : WriteCall) (writer : BitWriter) :
    (∃ used : Bits, call.run writer = used.forM bit writer) ∨
      (∃ data, writer.pending = [] ∧ call.run writer = bytes data writer) ∨
      ∃ error : StreamError, error.kind ≠ .writeZero ∧
        call.run writer = .error (.raised error) writer := by
  have someBytes (data : Bytes) : (∃ used : Bits, bytes data writer = used.forM bit writer) ∨
      ∃ data', writer.pending = [] ∧ bytes data writer = bytes data' writer := by
    by_cases aligned : writer.pending = []
    · exact .inr ⟨data, aligned, rfl⟩
    · have broken : ¬ writer.aligned = true := by simpa [BitWriter.aligned] using aligned
      refine .inl ⟨Bits.ofBytes data, ?_⟩
      rw [bytes, Step.get_bind, if_neg broken, each_byte_eq]
  cases call with
  | bit value =>
    refine .inl ⟨[value], ?_⟩
    simp [WriteCall.run]
  | bits value count =>
    by_cases wide : 64 < count
    · refine .inr (.inr ⟨.writeTooWide, by decide, ?_⟩)
      rw [WriteCall.run, bits, if_pos wide]
      rfl
    · refine .inl ⟨Bits.ofNat count value, ?_⟩
      rw [WriteCall.run, bits, if_neg wide]
  | align =>
    rw [WriteCall.run, align, Step.get_bind, fill_eq, fill_eq]
    by_cases few : writer.pending.length < 8
    · exact .inl ⟨_, by rw [if_pos few]⟩
    · exact .inl ⟨_, by rw [if_neg few]⟩
  | bytes data =>
    rcases someBytes data with row | whole
    · exact .inl row
    · exact .inr (.inl whole)
  | copy source start stop =>
    by_cases outside : stop < start ∨ 8 * source.length < stop
    · refine .inr (.inr ⟨.bitRangeOutside start stop source.length, fun kind => ?_, ?_⟩)
      · cases kind
      simp only [WriteCall.run, copy_eq, outside, if_true]
      rfl
    · simp only [WriteCall.run, copy_eq, outside, if_false]
      rw [Step.get_bind]
      split
      · rcases someBytes (source.slice (start / 8) (stop / 8 - start / 8)) with row | whole
        · exact .inl row
        · exact .inr (.inl whole)
      · exact .inl ⟨_, rfl⟩

/-! ## What outlasts a call -/

/-- Wherever `step` starts with `holds` and wherever it ends or fails, `holds` goes on. -/
abbrev Maintains (holds : BitWriter → Prop) (step : EStateM ε BitWriter α) : Prop :=
  Step.Ensures holds (fun _ => True) step fun _ => True

/-- What a single bit does not change, and whole bytes that are taken between two bytes do not. -/
structure Lasting (holds : BitWriter → Prop) : Prop where
  bit : ∀ value, Maintains holds (bit value)
  put : ∀ (writer : BitWriter) (data : Bytes), holds writer → writer.pending = [] →
    writer.buffer.refusal data.length = none → holds (writer.put data)

namespace Lasting

variable {holds : BitWriter → Prop}

theorem bytes_of_aligned (lasting : Lasting holds) {writer : BitWriter} (start : holds writer)
    (aligned : writer.pending = []) (data : Bytes) :
    match bytes data writer with
    | .ok _ behind => holds behind
    | .error _ behind => holds behind := by
  rw [Write.bytes_of_aligned aligned]
  cases taken : writer.buffer.refusal data.length with
  | some refused => exact start
  | none => exact lasting.put writer data start aligned taken

theorem call (lasting : Lasting holds) (call : WriteCall) : Maintains holds call.run := by
  intro writer start
  rcases run_cases call writer with ⟨used, same⟩ | ⟨data, aligned, same⟩ | ⟨error, -, same⟩
  · have row : Maintains holds (used.forM Write.bit) := .forM fun value _ => lasting.bit value
    rw [same]
    exact row writer start
  · have known := lasting.bytes_of_aligned start aligned data
    rw [same]
    cases run : Write.bytes data writer with
    | ok value behind =>
      rw [run] at known
      exact ⟨trivial, known⟩
    | error cause behind =>
      rw [run] at known
      exact ⟨trivial, known⟩
  · rw [same]
    exact ⟨trivial, start⟩

theorem runAll (lasting : Lasting holds) (calls : List WriteCall) :
    Maintains holds (WriteCall.runAll calls) :=
  .forM fun call _ => lasting.call call

end Lasting

end Write

namespace WriteCall

variable {writer behind : BitWriter}

/-! ## What a call adds -/

theorem code_add (bytes more : Nat) (call : WriteCall) :
    call.code (8 * bytes + more) = call.code more := by
  cases call with
  | align => exact Write.padding_add bytes more
  | _ => rfl

/-- What is added only depends on the place in a byte. -/
theorem codes_add (bytes more : Nat) (calls : List WriteCall) :
    codes (8 * bytes + more) calls = codes more calls := by
  induction calls generalizing more with
  | nil => rfl
  | cons call rest ih => rw [codes, codes, code_add, Nat.add_assoc, ih]

/-- Where there is room, a call adds its bits. -/
theorem run_extends {call : WriteCall} (valid : call.Valid)
    (room : writer.Room (call.code writer.bits.length).length) :
    ∃ behind, call.run writer = .ok () behind ∧
      writer.Extends (call.code writer.bits.length) behind := by
  cases call with
  | bit value => exact Write.bit_appends value writer room
  | bits value count => exact Write.bits_appends value count valid writer room
  | align => exact Write.align_extends room
  | bytes data => exact Write.bytes_appends data writer room
  | copy source start stop => exact Write.copy_appends valid.1 valid.2 writer room

theorem runAll_extends {calls : List WriteCall} (valid : ∀ call ∈ calls, call.Valid)
    (room : writer.Room (codes writer.bits.length calls).length) :
    ∃ behind, runAll calls writer = .ok () behind ∧
      writer.Extends (codes writer.bits.length calls) behind := by
  induction calls generalizing writer with
  | nil => exact ⟨writer, rfl, .refl room.pending⟩
  | cons call rest ih =>
    obtain ⟨own, others⟩ := List.forall_mem_cons.1 valid
    rw [codes, List.length_append] at room
    obtain ⟨between, first, extends₁⟩ := run_extends own (room.mono (Nat.le_add_right ..))
    have room' := extends₁.room room
    have pos : writer.bits.length + (call.code writer.bits.length).length =
        between.bits.length := by
      rw [extends₁.bits, List.length_append]
    rw [pos] at room'
    obtain ⟨behind, second, extends₂⟩ := ih others room'
    rw [← pos] at extends₂
    exact ⟨behind, (Step.bind_of_ok first).trans second, extends₁.trans extends₂⟩

/-- A call that has succeeded has added its bits. -/
theorem run_sound {call : WriteCall} (tight : writer.Tight) (run : call.run writer = .ok () behind) :
    call.Valid ∧ behind.Tight ∧ writer.Extends (call.code writer.bits.length) behind := by
  cases call with
  | bit value =>
    obtain ⟨tight', _, rfl, extends_⟩ := Write.bit_grows value _ _ _ tight run
    exact ⟨trivial, tight', extends_⟩
  | bits value count =>
    obtain ⟨tight', _, ⟨narrow, rfl⟩, extends_⟩ :=
      Write.bits_grows_narrow value count _ _ _ tight run
    exact ⟨narrow, tight', extends_⟩
  | align =>
    rw [WriteCall.run, Write.align, Step.get_bind, if_pos tight.pending] at run
    obtain ⟨tight', _, rfl, extends_⟩ := Write.fill_grows _ _ _ _ _ tight run
    rw [BitWriter.pending_length tight.pending] at extends_
    exact ⟨trivial, tight', extends_⟩
  | bytes data =>
    obtain ⟨tight', _, rfl, extends_⟩ := Write.bytes_grows data _ _ _ tight run
    exact ⟨trivial, tight', extends_⟩
  | copy source start stop =>
    have inside : start ≤ stop ∧ stop ≤ 8 * source.length := by
      by_cases outside : stop < start ∨ 8 * source.length < stop
      · simp only [WriteCall.run, Write.copy_eq, outside, if_true] at run
        cases run
      · omega
    have grows := (Write.copy_appends inside.1 inside.2).grows (Write.copy_widens source start stop)
      (Write.copy_grows source start stop)
    obtain ⟨tight', _, rfl, extends_⟩ := grows _ _ _ tight run
    exact ⟨inside, tight', extends_⟩

theorem runAll_sound {calls : List WriteCall} (tight : writer.Tight)
    (run : runAll calls writer = .ok () behind) :
    (∀ call ∈ calls, call.Valid) ∧ behind.Tight ∧
      writer.Extends (codes writer.bits.length calls) behind := by
  induction calls generalizing writer with
  | nil =>
    cases run
    exact ⟨nofun, tight, .refl tight.pending⟩
  | cons call rest ih =>
    obtain ⟨_, between, first, second⟩ := Step.bind_eq_ok.1 run
    obtain ⟨own, tight₁, extends₁⟩ := run_sound tight first
    obtain ⟨others, tight₂, extends₂⟩ := ih tight₁ second
    rw [extends₁.bits, List.length_append] at extends₂
    exact ⟨List.forall_mem_cons.2 ⟨own, others⟩, tight₂, extends₁.trans extends₂⟩

end WriteCall

end Av1Tiling
