import Av1Tiling.Proofs.Bits.Copying

/-!
# What a write adds

All bits of a writer are those of its complete bytes and the pending ones. Where there is room, a
write leaves the bits that are there and adds its own behind them (`Appends`), and it does not
matter how many of them make up the last byte.
-/

namespace Av1Tiling

namespace BitWriter

/-- All bits written so far. -/
def bits (writer : BitWriter) : Bits :=
  Bits.ofBytes writer.contents ++ writer.pending

/-- No byte has been refused, and none will be while `count` more bits are written. -/
structure Room (writer : BitWriter) (count : Nat) : Prop where
  pending : writer.pending.length < 8
  fits : writer.bits.length + count < 8 * (writer.buffer.capacity + 1)

/-- Behind the bits of one writer another has those in `more`. -/
structure Extends (front : BitWriter) (more : Bits) (behind : BitWriter) : Prop where
  bits : behind.bits = front.bits ++ more
  pending : behind.pending.length < 8
  capacity : behind.buffer.capacity = front.buffer.capacity

theorem length_bits (writer : BitWriter) :
    writer.bits.length = 8 * writer.buffer.size + writer.pending.length := by
  rw [bits, List.length_append, Bits.length_ofBytes, contents, BoundedBuffer.length_contents]

theorem pending_length {writer : BitWriter} (ready : writer.pending.length < 8) :
    writer.pending.length = writer.bits.length % 8 := by
  rw [length_bits]
  omega

theorem Room.mono {writer : BitWriter} {count less : Nat} (room : writer.Room count)
    (le : less ≤ count) : writer.Room less := by
  have fits := room.fits
  exact ⟨room.pending, by omega⟩

theorem Room.empty {capacity count : Nat} (fits : count < 8 * (capacity + 1)) :
    (empty capacity).Room count := by
  refine ⟨by simp [BitWriter.empty, onto], ?_⟩
  simpa [BitWriter.empty, onto, BoundedBuffer.empty, bits, contents, BoundedBuffer.contents]
    using fits

namespace Extends

variable {a b c : BitWriter} {u v : Bits}

protected theorem refl {writer : BitWriter} (ready : writer.pending.length < 8) :
    writer.Extends [] writer :=
  ⟨(List.append_nil _).symm, ready, rfl⟩

protected theorem trans (first : a.Extends u b) (second : b.Extends v c) :
    a.Extends (u ++ v) c := by
  refine ⟨?_, second.pending, second.capacity.trans first.capacity⟩
  rw [second.bits, first.bits, List.append_assoc]

theorem room {count : Nat} (extends_ : a.Extends u b) (room : a.Room (u.length + count)) :
    b.Room count := by
  have fits := room.fits
  refine ⟨extends_.pending, ?_⟩
  rw [extends_.bits, extends_.capacity, List.length_append]
  omega

/-- Where the bits end with a byte, they are the bits of the complete bytes. -/
theorem contents (extends_ : a.Extends u b) (whole : (a.bits ++ u).length % 8 = 0) :
    Bits.ofBytes b.contents = a.bits ++ u ∧ b.pending = [] := by
  have none : b.pending = [] := by
    apply List.eq_nil_of_length_eq_zero
    rw [pending_length extends_.pending, extends_.bits, whole]
  refine ⟨?_, none⟩
  rw [← extends_.bits, BitWriter.bits, none, List.append_nil]

/-- The bytes that were completed since the start of a byte, and what is pending behind them. -/
theorem exists_taken (extends_ : a.Extends u b) (aligned : a.pending = []) :
    ∃ data, b.contents = a.contents ++ data ∧ u = Bits.ofBytes data ++ b.pending := by
  have bits := extends_.bits
  have pending := extends_.pending
  rw [BitWriter.bits, BitWriter.bits, aligned, List.append_nil] at bits
  have length := congrArg List.length bits
  simp only [List.length_append, Bits.length_ofBytes] at length
  have front : Bits.ofBytes a.contents <+: Bits.ofBytes b.contents := by
    refine List.prefix_of_prefix_length_le (List.prefix_append _ u) ⟨b.pending, bits⟩ ?_
    rw [Bits.length_ofBytes, Bits.length_ofBytes]
    omega
  have kept : b.contents.take a.contents.length = a.contents := by
    apply Bits.ofBytes_injective
    rw [Bits.ofBytes_take, ← Bits.length_ofBytes, ← List.prefix_iff_eq_take.1 front]
  have contents := (List.take_append_drop a.contents.length b.contents).symm
  rw [kept] at contents
  refine ⟨_, contents, ?_⟩
  rw [contents, Bits.ofBytes_append, List.append_assoc] at bits
  exact (List.append_cancel_left bits).symm

end Extends

/-- The writer behind whole bytes that its buffer has taken. -/
def put (writer : BitWriter) (data : Bytes) : BitWriter :=
  { writer with
    buffer := writer.buffer.push data
    written := writer.written + 8 * data.length }

theorem contents_put (writer : BitWriter) (data : Bytes) :
    (writer.put data).contents = writer.contents ++ data :=
  BoundedBuffer.contents_push writer.buffer data

theorem size_put (writer : BitWriter) (data : Bytes) :
    (writer.put data).buffer.size = writer.buffer.size + data.length :=
  BoundedBuffer.size_push writer.buffer data

theorem put_put (writer : BitWriter) (data more : Bytes) :
    (writer.put data).put more = writer.put (data ++ more) := by
  have bytes : writer.buffer.bytes ++ data ++ more = writer.buffer.bytes ++ (data ++ more) := by
    apply Array.toList_inj.1
    simp
  simp [put, BoundedBuffer.push, bytes, Nat.mul_add, Nat.add_assoc]

end BitWriter

namespace Write

variable {ε α β : Type}

theorem aligned_iff {writer : BitWriter} : writer.aligned = true ↔ writer.pending = [] := by
  simp [BitWriter.aligned]

/-- Between two bytes all bits are those of complete bytes. -/
theorem bits_of_aligned {writer : BitWriter} (aligned : writer.pending = []) :
    writer.bits = Bits.ofBytes writer.contents := by
  rw [BitWriter.bits, aligned, List.append_nil]

/-- Where there is room, `step` adds exactly `bits` and yields `value`. -/
def Appends (step : EStateM ε BitWriter α) (bits : Bits) (value : α) : Prop :=
  ∀ writer : BitWriter, writer.Room bits.length →
    ∃ behind, step writer = .ok value behind ∧ writer.Extends bits behind

namespace Appends

variable {step : EStateM ε BitWriter α} {used more : Bits} {value : α} {result : β}

protected theorem pure (value : α) : Appends (pure value : EStateM ε BitWriter α) [] value :=
  fun writer room => ⟨writer, rfl, .refl room.pending⟩

protected theorem bind {next : α → EStateM ε BitWriter β} (first : Appends step used value)
    (second : Appends (next value) more result) :
    Appends (step >>= next) (used ++ more) result := by
  intro writer room
  rw [List.length_append] at room
  obtain ⟨between, run₁, extends₁⟩ := first writer (room.mono (Nat.le_add_right ..))
  obtain ⟨behind, run₂, extends₂⟩ := second between (extends₁.room room)
  exact ⟨behind, by rw [Step.bind_of_ok run₁, run₂], extends₁.trans extends₂⟩

/-- To go on with what was written adds nothing. -/
protected theorem map (f : α → β) (first : Appends step used value) :
    Appends (step >>= fun value => pure (f value)) used (f value) := by
  have run : Appends (step >>= fun value => pure (f value)) (used ++ []) (f value) :=
    first.bind (.pure (f value))
  rwa [List.append_nil] at run

/-- What a loop writes, item by item. -/
theorem forM {γ : Type} {step : γ → EStateM ε BitWriter PUnit} {code : γ → Bits}
    (items : List γ) (each : ∀ item ∈ items, Appends (step item) (code item) ⟨⟩) :
    Appends (items.forM step) (items.flatMap code) ⟨⟩ := by
  induction items with
  | nil => exact .pure _
  | cons item rest ih =>
    exact (each item List.mem_cons_self).bind (ih fun item found => each item (.tail _ found))

end Appends

theorem refusal_eq_none {buffer : BoundedBuffer} {count : Nat}
    (room : buffer.size + count ≤ buffer.capacity) : buffer.refusal count = none := by
  rw [BoundedBuffer.refusal, BoundedBuffer.remaining, if_neg (by omega)]

theorem bit_appends (value : Bool) : Appends (bit value) [value] () := by
  intro writer room
  have pending := room.pending
  have fits := room.fits
  rw [BitWriter.length_bits, List.length_singleton] at fits
  by_cases last : writer.pending.length = 7
  · have taken : writer.buffer.refusal 1 = none := refusal_eq_none (by omega)
    have eight : (writer.pending ++ [value]).length = 8 := by simp [last]
    have run : bit value writer =
        .ok () ⟨writer.buffer.push [Bits.toByte (writer.pending ++ [value])], [],
          writer.written + 1⟩ := by
      simp only [bit, if_pos last, taken]
    refine ⟨_, run, ?_, Nat.zero_lt_succ 7, rfl⟩
    simp only [BitWriter.bits, BitWriter.contents, BoundedBuffer.contents_push,
      Bits.ofBytes_append, Bits.ofBytes_singleton, Bits.ofByte_toByte eight, List.append_nil,
      List.append_assoc]
  · have run : bit value writer = .ok ()
        { writer with pending := writer.pending ++ [value], written := writer.written + 1 } := by
      simp only [bit, if_neg last]
      rw [if_neg (by omega)]
    refine ⟨_, run, ?_, ?_, rfl⟩
    · simp only [BitWriter.bits, BitWriter.contents, List.append_assoc]
    · simp only [List.length_append, List.length_singleton]
      omega

theorem each_bit_appends (used : Bits) : Appends (used.forM bit) used ⟨⟩ := by
  have run := Appends.forM used fun value _ => bit_appends value
  rwa [List.flatMap_singleton'] at run

theorem fill_appends (value : Bool) (count : Nat) :
    Appends (fill value count) (List.replicate count value) () := by
  induction count with
  | zero => exact .pure _
  | succ count ih => exact (bit_appends value).bind ih

theorem bits_appends (value count : Nat) (narrow : count ≤ 64) :
    Appends (bits value count) (Bits.ofNat count value) () := by
  rw [bits, if_neg (by omega)]
  exact each_bit_appends _

theorem byte_appends (byte : UInt8) : Appends (bits byte.toNat 8) (Bits.ofByte byte) () :=
  bits_appends byte.toNat 8 (by decide)

/-- Between two bytes, bytes go into the buffer whole or not at all. -/
theorem bytes_of_aligned {writer : BitWriter} (aligned : writer.pending = []) (data : Bytes) :
    bytes data writer = match writer.buffer.refusal data.length with
      | some refused => .error (.raised refused) writer
      | none => .ok () (writer.put data) := by
  have whole : writer.aligned = true := by simp [BitWriter.aligned, aligned]
  rw [bytes, Step.get_bind, if_pos whole]
  simp only [bind, EStateM.bind, push]
  cases writer.buffer.refusal data.length with
  | some refused => rfl
  | none => rfl

theorem bytes_run {writer : BitWriter} (aligned : writer.pending = []) {data : Bytes}
    (fits : writer.buffer.size + data.length ≤ writer.buffer.capacity) :
    bytes data writer = .ok () (writer.put data) := by
  rw [bytes_of_aligned aligned, refusal_eq_none fits]

theorem each_byte_run {writer : BitWriter} (aligned : writer.pending = []) {data : Bytes}
    (fits : writer.buffer.size + data.length ≤ writer.buffer.capacity) :
    (data.forM fun byte => bytes [byte]) writer = .ok () (writer.put data) := by
  induction data generalizing writer with
  | nil => rfl
  | cons byte rest ih =>
    rw [List.length_cons] at fits
    let between := writer.put [byte]
    have first : bytes [byte] writer = .ok () between :=
      bytes_run aligned (by rw [List.length_singleton]; omega)
    have size : between.buffer.size = writer.buffer.size + 1 := writer.size_put [byte]
    have room : between.buffer.size + rest.length ≤ writer.buffer.capacity := by omega
    have later : (rest.forM fun byte => bytes [byte]) between = .ok () (between.put rest) :=
      ih aligned room
    rw [BitWriter.put_put] at later
    exact (Step.bind_of_ok first).trans later

/-- Bytes are added as their bits, wherever the writer stands. -/
theorem bytes_appends (data : Bytes) : Appends (bytes data) (Bits.ofBytes data) () := by
  intro writer room
  have fits := room.fits
  rw [BitWriter.length_bits, Bits.length_ofBytes] at fits
  cases aligned : writer.aligned with
  | true =>
    have none : writer.pending = [] := by simpa [BitWriter.aligned] using aligned
    refine ⟨writer.put data, bytes_run none (by omega), ?_, room.pending, rfl⟩
    simp only [BitWriter.bits, BitWriter.contents, BitWriter.put, none,
      BoundedBuffer.contents_push, Bits.ofBytes_append, List.append_nil]
  | false =>
    have each : Appends (data.forM fun byte => bits byte.toNat 8) (data.flatMap Bits.ofByte) ⟨⟩ :=
      Appends.forM data fun byte _ => byte_appends byte
    obtain ⟨behind, success, extends_⟩ := each writer room
    refine ⟨behind, ?_, extends_⟩
    rw [bytes, Step.get_bind, aligned]
    exact success

theorem each_byte_appends (data : Bytes) :
    Appends (data.forM fun byte => bytes [byte]) (Bits.ofBytes data) ⟨⟩ :=
  Appends.forM data fun byte _ => by
    have run := bytes_appends [byte]
    rwa [Bits.ofBytes_singleton] at run

/-- The bits `start..stop` of a run of bytes. -/
theorem copy_appends {source : Bytes} {start stop : Nat} (ordered : start ≤ stop)
    (inside : stop ≤ 8 * source.length) :
    Appends (copy source start stop) ((⟨start, stop⟩ : BitSpan).of source) () := by
  intro writer room
  have outside : ¬(stop < start ∨ 8 * source.length < stop) := by omega
  simp only [copy_eq, outside, if_false, BitSpan.of, BitSpan.length] at room ⊢
  rw [Step.get_bind]
  split
  next whole =>
    have same : ((Bits.ofBytes source).drop start).take (stop - start) =
        Bits.ofBytes (source.slice (start / 8) (stop / 8 - start / 8)) := by
      rw [Bits.ofBytes_slice, Nat.mul_sub]
      congr 2 <;> omega
    rw [same] at room ⊢
    exact bytes_appends _ writer room
  next => exact each_bit_appends _ writer room

/-- The zeros that fill up the last byte of `count` bits. -/
def padding (count : Nat) : Bits :=
  List.replicate ((8 - count % 8) % 8) false

theorem length_padding (count : Nat) : (count + (padding count).length) % 8 = 0 := by
  rw [padding, List.length_replicate]
  omega

theorem padding_add (bytes more : Nat) : padding (8 * bytes + more) = padding more := by
  rw [padding, padding, Nat.mul_add_mod]

theorem align_extends {writer : BitWriter}
    (room : writer.Room (padding writer.bits.length).length) :
    ∃ behind, align writer = .ok () behind ∧
      writer.Extends (padding writer.bits.length) behind := by
  have same : padding writer.bits.length =
      List.replicate ((8 - writer.pending.length) % 8) false := by
    rw [padding, ← BitWriter.pending_length room.pending]
  rw [same] at room ⊢
  obtain ⟨behind, success, extends_⟩ :=
    fill_appends false ((8 - writer.pending.length) % 8) writer room
  refine ⟨behind, ?_, extends_⟩
  rw [align, Step.get_bind, if_pos room.pending]
  exact success

end Write

end Av1Tiling
