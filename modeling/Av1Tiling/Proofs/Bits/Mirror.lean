import Av1Tiling.Proofs.Bits.Numbers
import Av1Tiling.Proofs.Bits.Refusal

/-!
# Reading in the place of writing

Every call on a writer has a read that mirrors it. Where some calls have succeeded, the reads in
their place yield from the finished bytes what the calls have written, each at the bit up to which
the writer had counted (`readMarked_of_writeMarked`), whether whole bytes were written and read at
once or bit by bit.
-/

namespace Av1Tiling

namespace WriteCall

/-- What a call has to write, and what the read in its place yields. -/
inductive Item
  | bit (value : Bool)
  | number (value : Nat)
  | bytes (data : Bytes)
  | bits (used : Bits)
  /-- Zeros up to the next byte. -/
  | zeros
  deriving Repr, DecidableEq

def item : WriteCall → Item
  | bit value => .bit value
  | bits value count => .number (value % 2 ^ count)
  | align => .zeros
  | bytes data => .bytes data
  | copy source start stop => .bits ((⟨start, stop⟩ : BitSpan).of source)

/-- The read in the place of a call. It reads as many bits or bytes as the call writes. -/
def mirror : WriteCall → Read Item
  | bit _ => Item.bit <$> Read.bit
  | bits _ count => Item.number <$> Read.bits count
  | align => do
    Read.align
    return .zeros
  | bytes data => Item.bytes <$> Read.bytes data.length
  | copy _ start stop => Item.bits <$> (List.replicate (stop - start) ()).mapM fun _ => Read.bit

/-- A call, and what the writer has counted then. -/
def writeMarked (call : WriteCall) : Write (Item × Nat) := do
  call.run
  return (call.item, (← get).written)

/-- The read in the place of a call, and what the reader has counted then. -/
def readMarked (call : WriteCall) : Read (Item × Nat) := do
  let item ← call.mirror
  return (item, ← Read.pos)

end WriteCall

namespace Read

theorem takeBytes_ofBytes (data : Bytes) (rest : Bits) :
    takeBytes data.length (Bits.ofBytes data ++ rest) = (data, rest) := by
  induction data with
  | nil => rfl
  | cons byte data ih =>
    rw [Bits.ofBytes_cons, List.append_assoc, List.length_cons,
      takeBytes_succ data.length (Bits.length_ofByte byte), ih, Bits.toByte_ofByte]

theorem bytes_yields (data : Bytes) (pos : Nat) :
    (bytes data.length).Yields pos (Bits.ofBytes data) data := by
  intro rest
  simp only [bytes, takeBytes_ofBytes, Nat.lt_irrefl, if_false, Bits.length_ofBytes]

theorem align_yields (pos : Nat) : align.Yields pos (Write.padding pos) () := by
  intro rest
  have skipped : (⟨pos, Write.padding pos ++ rest⟩ : BitReader).untilAligned =
      (Write.padding pos).length := by
    rw [Write.padding, List.length_replicate]
    rfl
  rw [align, Step.modify_eq, skipped, List.drop_left]

/-- A number of which only so many bits were written. -/
theorem bits_yields (value count pos : Nat) (narrow : count ≤ 64) :
    (bits count).Yields pos (Bits.ofNat count value) (value % 2 ^ count) := by
  have own := extend_yields 0 count pos (Bits.length_ofNat count value)
  rw [Bits.toNat_ofNat, Nat.zero_mul, Nat.zero_add] at own
  rwa [bits, if_neg (Nat.not_lt.2 narrow)]

theorem each_bit_yields (used : Bits) (pos : Nat) :
    ((List.replicate used.length ()).mapM fun _ => bit).Yields pos used used := by
  induction used generalizing pos with
  | nil => exact .pure [] pos
  | cons value used ih =>
    rw [List.length_cons, List.replicate_succ, List.mapM_cons]
    exact (bit_decodes.yields value pos trivial).bind ((ih (pos + 1)).bind_pure (value :: ·))

end Read

/-- What was counted meanwhile is what was added. -/
theorem BitWriter.Counted.written_eq {front : Nat} {writer behind : BitWriter} {more : Bits}
    (counted : writer.Counted front) (onward : behind.Counted front)
    (extends_ : writer.Extends more behind) : behind.written = writer.written + more.length := by
  have before := counted.written
  have total := onward.written
  rw [extends_.bits, List.length_append] at total
  omega

namespace Write

/-- Where the byte that was begun fits, it is filled up with zeros, and all bits are whole bytes. -/
theorem finish_fills {writer : BitWriter} (tight : writer.Tight)
    (fits : writer.bits.length ≤ 8 * writer.buffer.capacity) :
    ∃ last, finish writer = .ok last.buffer last ∧
      writer.Extends (padding writer.bits.length) last ∧ last.pending = [] := by
  have room : writer.Room (padding writer.bits.length).length := by
    refine ⟨tight.pending, ?_⟩
    rw [padding, List.length_replicate]
    omega
  obtain ⟨last, filled, extends_⟩ := align_extends room
  refine ⟨last, Step.bind_of_ok filled, extends_, ?_⟩
  apply List.eq_nil_of_length_eq_zero
  rw [BitWriter.pending_length extends_.pending, extends_.bits, List.length_append]
  exact length_padding writer.bits.length

end Write

namespace WriteCall

/-- The read in the place of a call yields what the call has written. -/
theorem mirror_yields {call : WriteCall} (valid : call.Valid) (pos : Nat) :
    call.mirror.Yields pos (call.code pos) call.item := by
  cases call with
  | bit value => exact (Read.bit_decodes.yields value pos trivial).map Item.bit
  | bits value count => exact (Read.bits_yields value count pos valid).map Item.number
  | align => exact (Read.align_yields pos).bind_pure fun _ => Item.zeros
  | bytes data => exact (Read.bytes_yields data pos).map Item.bytes
  | copy source start stop =>
    have length : ((⟨start, stop⟩ : BitSpan).of source).length = stop - start := by
      have inside := valid.2
      simp only [BitSpan.of, BitSpan.length, List.length_take, List.length_drop,
        Bits.length_ofBytes]
      omega
    have each := (Read.each_bit_yields ((⟨start, stop⟩ : BitSpan).of source) pos).map Item.bits
    rwa [length] at each

theorem readMarked_yields {call : WriteCall} (valid : call.Valid) (pos : Nat) :
    call.readMarked.Yields pos (call.code pos) (call.item, pos + (call.code pos).length) := by
  have marked : call.readMarked.Yields pos (call.code pos ++ [])
      (call.item, pos + (call.code pos).length) :=
    (mirror_yields valid pos).bind ((Read.Yields.pos _).bind_pure (call.item, ·))
  rwa [List.append_nil] at marked

/-! ## Both -/

variable {front : Nat} {writer behind : BitWriter}

/-- A call that succeeds has written what the read in its place yields. -/
theorem writeMarked_sound {call : WriteCall} {mark : Item × Nat}
    (counted : writer.Counted (8 * front)) (run : call.writeMarked writer = .ok mark behind) :
    behind.Counted (8 * front) ∧ writer.Extends (call.code writer.written) behind ∧
      call.readMarked.Yields writer.written (call.code writer.written) mark := by
  obtain ⟨_, between, first, second⟩ := Step.bind_eq_ok.1 run
  cases second
  obtain ⟨valid, -, extends_⟩ := run_sound counted.toTight first
  have place : writer.bits.length = 8 * front + writer.written := by
    rw [← counted.written, Nat.add_comm]
  rw [place, code_add] at extends_
  obtain ⟨_, found, onward⟩ := Write.call_counted call counted
  have unbroken : ¬ call.Breaks writer := by
    rw [Breaks, first]
    exact id
  rw [WriteCall.behind?, first] at found
  obtain rfl := Option.some.inj found
  rw [if_neg unbroken] at onward
  have yields := readMarked_yields valid writer.written
  rw [← counted.written_eq onward extends_] at yields
  exact ⟨onward, extends_, yields⟩

theorem each_writeMarked_sound {calls : List WriteCall} {marks : List (Item × Nat)}
    (counted : writer.Counted (8 * front))
    (run : calls.mapM writeMarked writer = .ok marks behind) :
    behind.Counted (8 * front) ∧ writer.Extends (codes writer.written calls) behind ∧
      (calls.mapM readMarked).Yields writer.written (codes writer.written calls) marks := by
  induction calls generalizing writer marks with
  | nil =>
    cases run
    exact ⟨counted, .refl counted.pending, .pure [] _⟩
  | cons call rest ih =>
    rw [List.mapM_cons] at run
    obtain ⟨mark, between, first, run⟩ := Step.bind_eq_ok.1 run
    obtain ⟨others, _, second, done⟩ := Step.bind_eq_ok.1 run
    cases done
    obtain ⟨counted₁, extends₁, yields₁⟩ := writeMarked_sound counted first
    obtain ⟨counted₂, extends₂, yields₂⟩ := ih counted₁ second
    rw [counted.written_eq counted₁ extends₁] at extends₂ yields₂
    refine ⟨counted₂, extends₁.trans extends₂, ?_⟩
    rw [List.mapM_cons]
    exact yields₁.bind (yields₂.bind_pure (mark :: ·))

/-- Calls that all succeed, on a writer behind some bytes. What the writer counts are the bits of the
    calls, and its buffer has the whole bytes of them. Where the last byte fits, it is filled up with
    zeros, and the reads in the place of the calls yield what was written, each where the writer
    stood. -/
theorem readMarked_of_writeMarked {buffer : BoundedBuffer} {calls : List WriteCall}
    {marks : List (Item × Nat)} (tight : buffer.size ≤ buffer.capacity)
    (run : calls.mapM writeMarked (.onto buffer) = .ok marks writer)
    (room : writer.written ≤ 8 * buffer.remaining) :
    writer.written = (codes 0 calls).length ∧
      (∃ data, writer.contents = buffer.contents ++ data ∧
        Bits.ofBytes data = (codes 0 calls).take (8 * (writer.written / 8))) ∧
      ∃ output finished last, Write.finish writer = .ok finished last ∧
        finished.contents = buffer.contents ++ output ∧
        Bits.ofBytes output = codes 0 calls ++ Write.padding writer.written ∧
        Read.runOn (calls.mapM readMarked) output =
          .ok marks ⟨writer.written, Write.padding writer.written⟩ := by
  let start : BitWriter := .onto buffer
  have aligned : start.pending = [] := rfl
  have fresh : start.bits.length = 8 * buffer.size := by
    rw [BitWriter.length_bits]
    rfl
  have counted : start.Counted (8 * buffer.size) :=
    ⟨⟨Nat.zero_lt_succ 7, tight⟩, by rw [fresh]; exact Nat.zero_add _⟩
  obtain ⟨counted', extends_, yields⟩ := each_writeMarked_sound counted run
  have written : writer.written + 8 * buffer.size = writer.bits.length := counted'.written
  have stop : writer.written = start.written + (codes start.written calls).length :=
    counted.written_eq counted' extends_
  have count : writer.written = (codes 0 calls).length := stop.trans (Nat.zero_add _)
  refine ⟨count, ?_, ?_⟩
  · obtain ⟨data, contents, same⟩ := extends_.exists_taken aligned
    have whole : codes 0 calls = Bits.ofBytes data ++ writer.pending := same
    have pending := counted'.pending
    have length := congrArg List.length whole
    rw [List.length_append, Bits.length_ofBytes] at length
    have taken : data.length = writer.written / 8 := by omega
    refine ⟨data, contents, ?_⟩
    rw [whole, ← taken, ← Bits.length_ofBytes, List.take_left]
  · have capacity : writer.buffer.capacity = buffer.capacity := extends_.capacity
    rw [BoundedBuffer.remaining] at room
    obtain ⟨last, done, padded, full⟩ := Write.finish_fills counted'.toTight (by omega)
    rw [← written, Nat.add_comm, Write.padding_add] at padded
    obtain ⟨output, finished, bits⟩ := (extends_.trans padded).exists_taken aligned
    rw [full, List.append_nil] at bits
    have read := yields (Write.padding writer.written)
    rw [bits] at read
    rw [← stop] at read
    exact ⟨output, last.buffer, last, done, finished, bits.symm, read⟩

/-- Every call, in the middle of a byte and between two bytes. -/
def mixed : List WriteCall :=
  [.bit true, .bits 1000 9, .copy [0x12, 0x34, 0x56] 3 16, .bytes [0xAB], .align,
    .copy [0x9A, 0xBC, 0xDE] 8 24, .bytes [0, 0xFF], .bits (2 ^ 64 - 2) 64, .bit true]

/-- A buffer of 18 bytes, of which 17 are free. -/
def begun : BoundedBuffer :=
  ⟨18, #[7]⟩

theorem readMarked_of_writeMarked_mixed :
    begun.size ≤ begun.capacity ∧
      ∃ marks writer, mixed.mapM writeMarked (.onto begun) = .ok marks writer ∧
        marks.map Prod.snd = [1, 10, 23, 31, 32, 48, 64, 128, 129] ∧
        writer.written ≤ 8 * begun.remaining ∧
        ∃ output finished last, Write.finish writer = .ok finished last ∧
          finished.contents = begun.contents ++ output ∧
          Read.runOn (mixed.mapM readMarked) output =
            .ok marks ⟨writer.written, Write.padding writer.written⟩ := by
  have tight : begun.size ≤ begun.capacity := by decide
  obtain ⟨marks, writer, run, stops, room⟩ := (by decide +kernel : Step.Succeeds
    (fun (marks : List (Item × Nat)) writer =>
      marks.map Prod.snd = [1, 10, 23, 31, 32, 48, 64, 128, 129] ∧
        writer.written ≤ 8 * begun.remaining)
    (mixed.mapM writeMarked (.onto begun))).eq_ok
  obtain ⟨-, -, output, finished, last, done, contents, -, read⟩ :=
    readMarked_of_writeMarked tight run room
  exact ⟨tight, marks, writer, run, stops, room, output, finished, last, done, contents, read⟩

end WriteCall

end Av1Tiling
