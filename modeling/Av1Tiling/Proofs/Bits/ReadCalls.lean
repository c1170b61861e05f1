import Av1Tiling.Proofs.Bits.Bytewise
import Av1Tiling.Proofs.Checked

/-!
# Calls on a reader of bits

A reader is used by a few calls (`ReadCall`): for a bit, a number, bytes, and to skip bits or go on to
the next byte. What can be seen of it are the answers to the calls, failures included, and its place
behind each of them (`transcript`). A reader that takes bytes off a cursor looks like one that has
nothing but bits, whatever the calls are (`transcript_eq`), so that two of them that show the same bits
cannot be told apart.
-/

namespace Av1Tiling

/-- What a run has to say and what it leaves behind, whether or not it fails. -/
def Step.outcome {ε σ α : Type} : EStateM.Result ε σ α → Except ε α × σ
  | .ok value behind => (.ok value, behind)
  | .error cause behind => (.error cause, behind)

/-- A call on a reader of bits. -/
inductive ReadCall
  | bit
  /-- A number of `count` bits. -/
  | bits (count : Nat)
  | skip (count : Nat)
  /-- On to the next byte. -/
  | align
  /-- Up to `count` bytes. -/
  | bytes (count : Nat)
  deriving Repr, DecidableEq

namespace ReadCall

/-- What a call yields. -/
inductive Answer
  | bit (value : Bool)
  | number (value : Nat)
  | bytes (found : Bytes)
  | done
  deriving Repr, DecidableEq

/-- What can be seen of a reader: the bits that it has read, whether it is between two bytes, and the
    bytes of which it has read some bit. -/
structure Place where
  pos : Nat
  aligned : Bool
  bytePos : Nat
  deriving Repr, DecidableEq

def run : ReadCall → Read Answer
  | bit => Answer.bit <$> Read.bit
  | bits count => Answer.number <$> Read.bits count
  | skip count => (fun _ => Answer.done) <$> Read.skip count
  | align => (fun _ => Answer.done) <$> Read.align
  | bytes count => Answer.bytes <$> Read.bytes count

/-- The call on a reader that takes bytes off a cursor. -/
def runBytewise : ReadCall → ByteRead Answer
  | bit => Answer.bit <$> ByteRead.bit
  | bits count => Answer.number <$> ByteRead.bits count
  | skip count => (fun _ => Answer.done) <$> ByteRead.skip count
  | align => (fun _ => Answer.done) <$> ByteRead.align
  | bytes count => Answer.bytes <$> ByteRead.bytes count

section Calling

variable {σ : Type} (run : ReadCall → EStateM (Failure StreamError) σ Answer)

/-- The reader behind some calls, each of which may have failed. -/
def after (reader : σ) (calls : List ReadCall) : σ :=
  calls.foldl (fun reader call => (Step.outcome (run call reader)).2) reader

/-- The answers to some calls, each with the place of the reader behind it. -/
def transcript (place : σ → Place) :
    σ → List ReadCall → List (Except (Failure StreamError) Answer × Place)
  | _, [] => []
  | reader, call :: rest =>
    let (answer, behind) := Step.outcome (run call reader)
    (answer, place behind) :: transcript place behind rest

end Calling

end ReadCall

namespace BitReader

def place (reader : BitReader) : ReadCall.Place :=
  ⟨reader.pos, reader.aligned, reader.bytePos⟩

/-- The reader behind some calls. -/
def after : BitReader → List ReadCall → BitReader :=
  ReadCall.after ReadCall.run

/-- What can be seen of some calls. -/
def transcript :
    BitReader → List ReadCall → List (Except (Failure StreamError) ReadCall.Answer × ReadCall.Place) :=
  ReadCall.transcript ReadCall.run place

end BitReader

namespace ByteReader

def place (reader : ByteReader) : ReadCall.Place :=
  ⟨reader.pos, reader.aligned, reader.cursor.pos⟩

/-- The reader behind some calls. -/
def after : ByteReader → List ReadCall → ByteReader :=
  ReadCall.after ReadCall.runBytewise

/-- What can be seen of some calls. -/
def transcript :
    ByteReader → List ReadCall → List (Except (Failure StreamError) ReadCall.Answer × ReadCall.Place) :=
  ReadCall.transcript ReadCall.runBytewise place

/-- The readers are at the same place, and so they are behind the same calls with the same answers. -/
structure LooksLike (reader other : ByteReader) : Prop where
  place : reader.place = other.place
  later : ∀ calls, reader.transcript calls = other.transcript calls

variable {data : Bytes} {reader other : ByteReader}

/-! ## One call -/

theorem run_refines (call : ReadCall) : ByteRead.Refines call.runBytewise call.run := by
  cases call with
  | bit => exact .map _ ByteRead.bit_refines
  | bits count => exact .map _ (ByteRead.bits_refines count)
  | skip count => exact .map _ (ByteRead.skip_refines count)
  | align => exact .map _ ByteRead.align_refines
  | bytes count => exact .map _ (ByteRead.bytes_refines count)

theorem outcome_of_agrees {α : Type}
    {result : EStateM.Result (Failure StreamError) ByteReader α}
    {plain : EStateM.Result (Failure StreamError) BitReader α}
    (agrees : ByteRead.Agrees data result plain) :
    (Step.outcome result).2.Sound data ∧
      Step.outcome plain = ((Step.outcome result).1, (Step.outcome result).2.view) := by
  cases result with
  | ok value behind => exact ⟨agrees.2, by rw [agrees.1]; rfl⟩
  | error cause behind => exact ⟨agrees.2, by rw [agrees.1]; rfl⟩

/-- The place in the bytes is the one that the bits tell. -/
theorem Sound.place_eq (sound : reader.Sound data) : reader.place = reader.view.place := by
  have aligned : reader.aligned = reader.view.aligned := by
    rw [Bool.eq_iff_iff, sound.aligned_iff, ByteReader.aligned, beq_iff_eq]
  rw [ByteReader.place, BitReader.place, aligned, sound.place]
  rfl

/-! ## All calls -/

theorem Sound.after (sound : reader.Sound data) (calls : List ReadCall) :
    (reader.after calls).Sound data ∧ (reader.after calls).view = reader.view.after calls := by
  induction calls generalizing reader with
  | nil => exact ⟨sound, rfl⟩
  | cons call rest ih =>
    obtain ⟨onward, same⟩ := outcome_of_agrees (run_refines call data reader sound)
    have first : reader.view.after (call :: rest) =
        (Step.outcome (call.runBytewise reader)).2.view.after rest :=
      congrArg (fun outcome => BitReader.after outcome.2 rest) same
    rw [first]
    exact ih onward

/-- A reader that takes bytes off a cursor looks like one that has nothing but bits. -/
theorem Sound.transcript_eq (sound : reader.Sound data) (calls : List ReadCall) :
    reader.transcript calls = reader.view.transcript calls := by
  induction calls generalizing reader with
  | nil => rfl
  | cons call rest ih =>
    obtain ⟨onward, same⟩ := outcome_of_agrees (run_refines call data reader sound)
    have others := ih onward
    simp only [transcript, BitReader.transcript, ReadCall.transcript] at others ⊢
    rw [same, others, onward.place_eq]

/-- Readers that show the same bits cannot be told apart. -/
theorem Sound.looksLike (sound : reader.Sound data) (too : other.Sound data)
    (same : reader.view = other.view) : reader.LooksLike other :=
  ⟨by rw [sound.place_eq, too.place_eq, same],
    fun calls => by rw [sound.transcript_eq, too.transcript_eq, same]⟩

/-- Behind any calls, failed ones included, on a reader of some bytes. It looks like the reader that
    has nothing but their bits, and its cursor has taken the bytes of which some bit was read. A number
    of up to 64 bits is the same, or fails for the same cause, whether it is read in whole bytes where
    that is possible or bit by bit, and the reader looks the same afterwards and behind all later
    calls. -/
theorem bits_singly (data : Bytes) (calls : List ReadCall) :
    (ofBytes data).transcript calls = (BitReader.ofBytes data).transcript calls ∧
      ((ofBytes data).after calls).cursor.pos = (((ofBytes data).after calls).pos + 7) / 8 ∧
      ∀ count ≤ 64,
        Read.bits count = singly Read.bit count ∧
          let fast := Step.outcome (ByteRead.bits count ((ofBytes data).after calls))
          let slow := Step.outcome (singly ByteRead.bit count ((ofBytes data).after calls))
          fast.1 = slow.1 ∧ fast.2.LooksLike slow.2 := by
  have start := sound_ofBytes data
  obtain ⟨sound, -⟩ := start.after calls
  refine ⟨start.transcript_eq calls, sound.place, fun count narrow => ?_⟩
  have same := Read.bits_eq_singly narrow
  obtain ⟨whole, bitsShow⟩ := outcome_of_agrees (ByteRead.bits_refines count data _ sound)
  obtain ⟨single, singlyShow⟩ := outcome_of_agrees (ByteRead.singly_refines count data _ sound)
  rw [same, singlyShow] at bitsShow
  obtain ⟨answer, view⟩ := Prod.mk.inj bitsShow
  exact ⟨same, answer.symm, whole.looksLike single view.symm⟩

/-- Three bytes, of which the first one was begun when a byte was read. -/
def inMiddle : List ReadCall := [.bits 3, .bytes 1, .bits 65]

/-- A number that would go two bits beyond the last byte. -/
theorem bits_singly_cut_short :
    (15 ≤ 64) ∧ ((ofBytes [0xA5, 0x5A, 0xFF]).after inMiddle).place = ⟨11, false, 2⟩ ∧
      let reader := (ofBytes [0xA5, 0x5A, 0xFF]).after inMiddle
      (Step.outcome (ByteRead.bits 15 reader)).1 = .error (.raised (.exhausted 24)) ∧
        (Step.outcome (singly ByteRead.bit 15 reader)).1 = .error (.raised (.exhausted 24)) ∧
        (Step.outcome (ByteRead.bits 15 reader)).2.LooksLike
          (Step.outcome (singly ByteRead.bit 15 reader)).2 := by
  have narrow : 15 ≤ 64 := by decide
  have fails : (Step.outcome (ByteRead.bits 15 ((ofBytes [0xA5, 0x5A, 0xFF]).after inMiddle))).1 =
      .error (.raised (.exhausted 24)) := by
    decide +kernel
  obtain ⟨-, -, numbers⟩ := bits_singly [0xA5, 0x5A, 0xFF] inMiddle
  obtain ⟨-, same, looksLike⟩ := numbers 15 narrow
  exact ⟨narrow, by decide +kernel, fails, same.symm.trans fails, looksLike⟩

end ByteReader

end Av1Tiling
