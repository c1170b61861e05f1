/-!
# Checked arithmetic

Sizes, offsets and identifiers are natural numbers that have to fit 32 bits, are only ever
subtracted where the difference exists and only shifted by less than their width. Where that is not
plain from the line itself, the computation goes through one of the operations here and a value out
of range becomes a `Fault` instead of a wrapped number. A fault is no error: nobody is handed it, and
nothing goes on behind it (`Failure`).
-/

namespace Av1Tiling

/-- A computation left the range it is defined on. -/
inductive Fault
  /-- A value needs more than 32 bits. -/
  | aboveWord (value : Nat)
  /-- An offset needs more than 64 bits. -/
  | aboveLong (value : Nat)
  /-- A signed value needs more than 32 bits. -/
  | outsideSigned (value : Int)
  /-- A difference lies below zero. -/
  | belowZero (minuend subtrahend : Nat)
  /-- A quotient has no divisor. -/
  | noDivisor (dividend : Nat)
  /-- A number of `width` bits is shifted by as many bits or more. -/
  | shiftTooFar (amount width : Nat)
  /-- A number of no bytes or of more than eight. -/
  | numberWidth (size : Nat)
  /-- A slice leaves its buffer. -/
  | outsideBuffer (start stop size : Nat)
  /-- A bit writer was used after its buffer refused a byte. -/
  | refusedByte
  deriving Repr, DecidableEq

/-- Why a computation came to no value. -/
inductive Failure (ε : Type)
  /-- An error, which the caller is handed and may go on behind. -/
  | raised (error : ε)
  /-- The whole program has ended. -/
  | fault (cause : Fault)
  deriving Repr, DecidableEq

namespace Failure

variable {ε δ : Type}

/-- An error in the terms of a caller. A fault stays what it is. -/
def map (f : ε → δ) : Failure ε → Failure δ
  | raised error => raised (f error)
  | fault cause => fault cause

def IsFault (failure : Failure ε) : Prop :=
  ∃ cause, failure = fault cause

theorem not_isFault_raised (error : ε) : ¬ (raised error).IsFault := by
  rintro ⟨_, ⟨⟩⟩

theorem isFault_map {f : ε → δ} {failure : Failure ε} :
    (failure.map f).IsFault ↔ failure.IsFault := by
  constructor
  · rintro ⟨cause, same⟩
    cases failure with
    | raised error => cases same
    | fault => exact ⟨_, rfl⟩
  · rintro ⟨cause, rfl⟩
    exact ⟨cause, rfl⟩

end Failure

/-- Checked arithmetic may be part of a computation with errors of its own. -/
instance {ε : Type} : MonadLift (Except Fault) (Except (Failure ε)) where
  monadLift
    | .ok value => .ok value
    | .error cause => .error (.fault cause)

/-- So may a computation that has errors only. -/
instance {ε : Type} : MonadLift (Except ε) (Except (Failure ε)) where
  monadLift
    | .ok value => .ok value
    | .error error => .error (.raised error)

/-- A computation that may fail is a step that leaves the state alone. -/
instance liftStep {ε σ : Type} : MonadLift (Except ε) (EStateM ε σ) where
  monadLift
    | .ok value => pure value
    | .error cause => throw cause

namespace Checked

/-- One past the largest 32 bit number. -/
def wordBound : Nat := 2 ^ 32

/-- `value`, if it fits 32 bits. -/
def word (value : Nat) : Except Fault Nat :=
  if value < wordBound then .ok value else .error (.aboveWord value)

/-- `value`, if it fits 64 bits. -/
def long (value : Nat) : Except Fault Nat :=
  if value < 2 ^ 64 then .ok value else .error (.aboveLong value)

/-- `a - b`, if it exists. -/
def sub (a b : Nat) : Except Fault Nat :=
  if b ≤ a then .ok (a - b) else .error (.belowZero a b)

/-- `a / b`, if it exists. -/
def div (a b : Nat) : Except Fault Nat :=
  if b = 0 then .error (.noDivisor a) else .ok (a / b)

/-- One shifted by `amount`, as a number of `width` bits. -/
def shift (width amount : Nat) : Except Fault Nat :=
  if amount < width then .ok (2 ^ amount) else .error (.shiftTooFar amount width)

/-- `a - b` of two words that count as signed, if it fits 32 bits. -/
def signedSub (a b : Nat) : Except Fault Int :=
  let difference := Int.bmod a wordBound - Int.bmod b wordBound
  if -2 ^ 31 ≤ difference ∧ difference < 2 ^ 31 then
    .ok difference
  else
    .error (.outsideSigned difference)

theorem word_eq_ok {value : Nat} (h : value < wordBound) : word value = .ok value :=
  if_pos h

theorem long_eq_ok {value : Nat} (h : value < 2 ^ 64) : long value = .ok value :=
  if_pos h

theorem sub_eq_ok {a b : Nat} (h : b ≤ a) : sub a b = .ok (a - b) :=
  if_pos h

theorem div_eq_ok {a b : Nat} (h : b ≠ 0) : div a b = .ok (a / b) :=
  if_neg h

theorem shift_eq_ok {width amount : Nat} (h : amount < width) :
    shift width amount = .ok (2 ^ amount) :=
  if_pos h

theorem signedSub_eq_ok {a b : Nat} (ha : a < 2 ^ 31) (hb : b < 2 ^ 31) :
    signedSub a b = .ok (a - b : Int) := by
  have hwa : Int.bmod a wordBound = a := by
    rw [Int.bmod_eq_of_le] <;> simp only [wordBound] <;> omega
  have hwb : Int.bmod b wordBound = b := by
    rw [Int.bmod_eq_of_le] <;> simp only [wordBound] <;> omega
  simp only [signedSub, hwa, hwb]
  rw [if_pos (by omega)]

end Checked

end Av1Tiling
