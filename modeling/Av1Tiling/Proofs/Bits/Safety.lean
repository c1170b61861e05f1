import Av1Tiling.Proofs.Bits.Numbers
import Av1Tiling.Proofs.Checked

/-!
# Reads without faults

A read may fail because the bits end or mean nothing, but never because a value leaves the range it
is computed in, and wherever it stops it has gone forward in its stream (`Read.Safe`).
-/

namespace Av1Tiling

/-- The second reader stands behind the first one in the same stream. -/
def BitReader.Reaches (first second : BitReader) : Prop :=
  ∃ used, first.Advances used second

namespace BitReader.Reaches

variable {a b c : BitReader}

protected theorem refl (reader : BitReader) : reader.Reaches reader :=
  ⟨[], .refl reader⟩

protected theorem trans (first : a.Reaches b) (second : b.Reaches c) : a.Reaches c := by
  rcases first with ⟨used, advances⟩
  rcases second with ⟨more, onward⟩
  exact ⟨used ++ more, advances.trans onward⟩

theorem atEnd (reader : BitReader) : reader.Reaches reader.atEnd :=
  ⟨reader.rest, (List.append_nil _).symm, rfl⟩

/-- A reader of whole bytes stays in front of their end. -/
theorem bytePos_le {bytes : Bytes} {reader : BitReader}
    (reaches : (BitReader.ofBytes bytes).Reaches reader) : reader.bytePos ≤ bytes.length := by
  rcases reaches with ⟨used, advances⟩
  have total := advances.total
  simp only [ofBytes, Bits.length_ofBytes] at total
  rw [bytePos]
  omega

end BitReader.Reaches

namespace Read

variable {α β : Type} {start : BitReader}

/-- From wherever `step` starts behind `start`, it goes on behind `start`. It yields a value with
    `yields`, or fails and not for a fault. -/
abbrev Safe (start : BitReader) (step : Read α) (yields : α → Prop) : Prop :=
  Step.Ensures start.Reaches (¬ Failure.IsFault ·) step yields

/-- A step is safe that goes on behind where it starts. -/
theorem safe_of_reaches {step : Read α} {yields : α → Prop}
    (each : ∀ reader, match step reader with
      | .ok value behind => yields value ∧ reader.Reaches behind
      | .error cause behind => ¬ cause.IsFault ∧ reader.Reaches behind) :
    Safe start step yields := by
  intro reader reached
  have known := each reader
  cases run : step reader with
  | ok value behind =>
    rw [run] at known
    exact ⟨known.1, reached.trans known.2⟩
  | error cause behind =>
    rw [run] at known
    exact ⟨known.1, reached.trans known.2⟩

/-- A computation in range reads nothing. -/
theorem Safe.lift {result : Except Fault α} {yields : α → Prop}
    (gives : Checked.Gives result yields) : Safe start (liftM result) yields := by
  rcases gives with ⟨value, rfl, known⟩
  exact Step.Ensures.pure known

/-- A computation with errors only reads nothing. -/
theorem Safe.liftStream {result : Except StreamError α} {yields : α → Prop}
    (success : ∀ value, result = .ok value → yields value) :
    Safe start (liftM result) yields := by
  cases result with
  | ok value => exact Step.Ensures.pure (success value rfl)
  | error error => exact Step.Ensures.throw (Failure.not_isFault_raised error)

/-- A safe read yields what its code stands for. -/
theorem Safe.of_decodes {step : Read α} {yields Legal : α → Prop} {code : α → Bits}
    (safe : Safe start step yields) (decodes : Decodes step Legal code) :
    Safe start step Legal := by
  intro reader reached
  cases run : step reader with
  | ok value behind => exact ⟨(decodes.sound run).1, (safe.of_ok reached run).2⟩
  | error cause behind => exact safe.of_error reached run

theorem bit_safe : Safe start bit fun _ => True := by
  refine safe_of_reaches fun reader => ?_
  rcases reader with ⟨pos, _ | ⟨first, rest⟩⟩
  · exact ⟨Failure.not_isFault_raised _, .refl _⟩
  · exact ⟨trivial, [first], rfl, rfl⟩

theorem bitIf_safe (present : Bool) : Safe start (bitIf present) fun _ => True :=
  .ite (fun _ => bit_safe) fun _ => .pure trivial

theorem octet_safe : Safe start octet fun _ => True := by
  refine safe_of_reaches fun reader => ?_
  cases run : octet reader with
  | ok value behind =>
    rcases octet_sound run with ⟨used, -, -, advances⟩
    exact ⟨trivial, used, advances⟩
  | error cause behind =>
    unfold octet at run
    split at run
    · cases run
    · cases run
      exact ⟨Failure.not_isFault_raised _, .atEnd reader⟩

theorem extend_safe (value count : Nat) : Safe start (extend value count) fun _ => True := by
  induction count using Nat.strongRecOn generalizing value with
  | ind count ih =>
    intro reader reached
    rw [extend]
    by_cases empty : count = 0
    · rw [if_pos empty]
      exact ⟨trivial, reached⟩
    · rw [if_neg empty]
      by_cases whole : reader.aligned ∧ 8 ≤ count
      · rw [if_pos whole]
        exact (octet_safe.bind fun low _ => ih (count - 8) (by omega) _) reader reached
      · rw [if_neg whole]
        exact (bit_safe.bind fun low _ => ih (count - 1) (by omega) _) reader reached

/-- A number of `count` bits is below `2 ^ count`. -/
theorem bits_safe (count : Nat) : Safe start (bits count) (· < 2 ^ count) := by
  have safe : Safe start (bits count) fun _ => True := by
    unfold bits
    refine .ite (fun _ => .throw ?_) fun _ => extend_safe 0 count
    exact Failure.not_isFault_raised _
  exact (safe.of_decodes (bits_decodes count)).mono fun value legal => legal.2

theorem pos_safe : Safe start pos fun _ => True :=
  safe_of_reaches fun reader => ⟨trivial, .refl reader⟩

theorem spanned_safe {step : Read α} {yields : α → Prop} (safe : Safe start step yields) :
    Safe start (spanned step) fun found => yields found.1 := by
  refine pos_safe.bind fun first _ => safe.bind fun value known => pos_safe.bind fun stop _ => ?_
  exact .pure known

theorem takeBytes_eq (count : Nat) (rest : Bits) :
    ∃ used, rest = used ++ (takeBytes count rest).2 ∧
      used.length = 8 * (takeBytes count rest).1.length := by
  fun_induction takeBytes count rest with
  | case1 count b0 b1 b2 b3 b4 b5 b6 b7 rest bytes left same ih =>
    rcases ih with ⟨used, split, length⟩
    rw [same] at split length
    refine ⟨b0 :: b1 :: b2 :: b3 :: b4 :: b5 :: b6 :: b7 :: used, ?_, ?_⟩
    · simp [← split]
    · simp only [List.length_cons, length]
      omega
  | case2 => exact ⟨[], rfl, rfl⟩

theorem bytes_safe (count : Nat) : Safe start (bytes count) fun _ => True := by
  refine safe_of_reaches fun reader => ⟨trivial, ?_⟩
  rcases takeBytes_eq count reader.rest with ⟨used, split, length⟩
  have reached : reader.Reaches
      ⟨reader.pos + 8 * (takeBytes count reader.rest).1.length, (takeBytes count reader.rest).2⟩ :=
    ⟨used, split, by rw [length]⟩
  by_cases short : (takeBytes count reader.rest).1.length < count
  · simp only [if_pos short]
    exact reached.trans (.atEnd _)
  · simp only [if_neg short]
    exact reached

theorem word_safe : Safe start word fun _ => True := by
  refine (bytes_safe 4).bind fun found _ => .ite (fun _ => .throw_bind ?_) fun _ => .pure trivial
  exact Failure.not_isFault_raised _

theorem zeroPadding_go_safe (count : Nat) : Safe start (zeroPadding.go count) fun _ => True := by
  induction count with
  | zero => exact .pure trivial
  | succ count ih =>
    refine bit_safe.bind fun one _ => .ite (fun _ => .throw ?_) fun _ => ih
    exact Failure.not_isFault_raised _

theorem zeroPadding_safe : Safe start zeroPadding fun _ => True :=
  Step.Ensures.get.bind fun _ _ => zeroPadding_go_safe _

end Read

end Av1Tiling
