import Av1Tiling.Proofs.Bits.ReadCalls

/-!
# Reads that come up short

A read of up to `count` bytes delivers as many as the bits that are left hold, wherever in a byte it
begins. Between two bytes these are all the bits there are. In the middle of a byte the bits behind the
last whole byte are lost where the read comes up short: the reader goes on bit by bit until it runs out
of them (`bytes_takes`). A read that takes nothing but what it delivers is `Lossless`.
-/

namespace Av1Tiling

namespace ByteReader

/-- A read of up to `count` bytes of `data` delivers as many as the bits that are left hold, and these
    are written by the next of them. -/
structure Delivers (data : Bytes) (reader : ByteReader) (count : Nat) (found : Bytes)
    (behind : ByteReader) : Prop where
  run : ByteRead.bytes count reader = .ok found behind
  length : found.length = min count ((8 * data.length - reader.pos) / 8)
  bits : Bits.ofBytes found = ((Bits.ofBytes data).drop reader.pos).take (8 * found.length)

/-- The read takes the bits of the bytes that it delivers and no others. -/
def Lossless (data : Bytes) (reader : ByteReader) (count : Nat) : Prop :=
  ∃ found behind, Delivers data reader count found behind ∧
    behind.pos = reader.pos + 8 * found.length

variable {data : Bytes} {reader : ByteReader} {count : Nat}

theorem Sound.view_eq (sound : reader.Sound data) :
    reader.view = ⟨reader.pos, (Bits.ofBytes data).drop reader.pos⟩ := by
  rw [view, sound.source]

/-- Bits that are too few for a byte are left in the middle of a byte only. -/
theorem Sound.left_mod_eq_zero_iff (sound : reader.Sound data) :
    (8 * data.length - reader.pos) % 8 = 0 ↔ reader.aligned = true := by
  have used := sound.used
  have inside := sound.inside
  rw [aligned, beq_iff_eq]
  omega

/-- What a read of bytes delivers, and what it takes. -/
theorem Sound.delivers (sound : reader.Sound data) (count : Nat) :
    ∃ found behind, Delivers data reader count found behind ∧ behind.Sound data ∧
      Read.bytes count reader.view = .ok found behind.view ∧
      behind.pos = reader.pos + 8 * found.length +
        if found.length < count then (8 * data.length - reader.pos) % 8 else 0 := by
  have inside := sound.inside
  have left : reader.view.rest.length = 8 * data.length - reader.pos := by
    rw [sound.view_eq, List.length_drop, Bits.length_ofBytes]
  obtain ⟨found, length, same, plain⟩ := Read.bytes_eq count reader.view
  rw [left] at length
  have shows := ByteRead.bytes_refines count data reader sound
  rw [plain] at shows
  cases run : ByteRead.bytes count reader with
  | error cause behind =>
    rw [run] at shows
    cases shows.1
  | ok value behind =>
    rw [run] at shows
    obtain ⟨rfl, onward⟩ := EStateM.Result.ok.inj shows.1
    have pos : behind.pos =
        (if found.length < count then reader.view.atEnd
          else ⟨reader.view.pos + 8 * found.length, reader.view.rest.drop (8 * found.length)⟩ :
            BitReader).pos :=
      congrArg BitReader.pos onward.symm
    rw [onward] at plain
    rw [sound.view_eq] at same
    refine ⟨found, behind, ⟨run, length, same⟩, shows.2, plain, ?_⟩
    rw [pos]
    by_cases short : found.length < count
    · -- All the bits are used up: the whole bytes among them are those that were found.
      rw [if_pos short, if_pos short, BitReader.atEnd, left, sound.view_eq]
      simp only
      omega
    · rw [if_neg short, if_neg short, sound.view_eq, Nat.add_zero]

/-- A read loses nothing between two bytes, and elsewhere where it is not short of bytes. -/
theorem Sound.lossless_iff (sound : reader.Sound data) :
    Lossless data reader count ↔
      reader.aligned = true ∨ count ≤ (8 * data.length - reader.pos) / 8 := by
  obtain ⟨found, behind, delivers, -, -, takes⟩ := sound.delivers count
  have length := delivers.length
  have only : Lossless data reader count ↔ behind.pos = reader.pos + 8 * found.length := by
    constructor
    · rintro ⟨others, after, too, less⟩
      obtain ⟨rfl, rfl⟩ := EStateM.Result.ok.inj (too.run.symm.trans delivers.run)
      exact less
    · exact fun less => ⟨found, behind, delivers, less⟩
  rw [only, takes, ← sound.left_mod_eq_zero_iff]
  split
  next short => omega
  next => omega

/-- Behind any calls on a reader of some bytes. A read of up to `count` bytes delivers as many as the
    bits that are left hold, the next of them in order. Between two bytes, and elsewhere where it is not
    short of bytes, it takes nothing else. All other reads lose the bits that are too few for a byte.
    What is read afterwards begins behind the bits that were taken. -/
theorem bytes_takes (data : Bytes) (calls : List ReadCall) (count : Nat) :
    let reader := (ofBytes data).after calls
    let left := 8 * data.length - reader.pos
    ∃ found behind, Delivers data reader count found behind ∧
      Read.bytes count ((BitReader.ofBytes data).after calls) = .ok found behind.view ∧
      behind.pos = reader.pos + 8 * found.length + (if found.length < count then left % 8 else 0) ∧
      (∀ later, behind.transcript later =
        BitReader.transcript ⟨behind.pos, (Bits.ofBytes data).drop behind.pos⟩ later) ∧
      (Lossless data reader count ↔ reader.aligned = true ∨ count ≤ left / 8) := by
  obtain ⟨sound, shows⟩ := (sound_ofBytes data).after calls
  obtain ⟨found, behind, delivers, onward, plain, takes⟩ := sound.delivers count
  rw [shows] at plain
  refine ⟨found, behind, delivers, plain, takes, fun later => ?_, sound.lossless_iff⟩
  rw [onward.transcript_eq, onward.view_eq]

/-- Half a byte is left, which is lost with a read of bytes. -/
theorem not_lossless_halfway :
    ((ofBytes [0xFF]).after [.bits 4]).place = ⟨4, false, 1⟩ ∧
      ¬Lossless [0xFF] ((ofBytes [0xFF]).after [.bits 4]) 1 ∧
      (ofBytes [0xFF]).transcript [.bits 4, .bytes 1, .bits 4] =
        [(.ok (.number 15), ⟨4, false, 1⟩), (.ok (.bytes []), ⟨8, true, 1⟩),
          (.error (.raised (.exhausted 8)), ⟨8, true, 1⟩)] := by
  have sound := ((sound_ofBytes [0xFF]).after [.bits 4]).1
  refine ⟨by decide +kernel, ?_, by decide +kernel⟩
  rw [sound.lossless_iff]
  decide +kernel

end ByteReader

end Av1Tiling
