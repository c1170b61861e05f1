import Av1Tiling.Sei.Emulation

/-!
# Guard bytes

Behind the same run of zeros both directions count the same zeros, and start again from none behind
a guard byte. So every guard byte that was put in is taken out, and no other byte.

The zeros that are counted while guard bytes are put in are those that the unit ends with so far, and
never more than two. Behind two zeros a unit therefore has a guard byte, with the byte that needed it
next, or a byte above all that need one.
-/

namespace Av1Tiling.Sei.Emulation

theorem removeFrom_of_guard {zeros : Nat} (many : 2 ≤ zeros) (rest : Bytes) :
    removeFrom zeros (guardByte :: rest) = removeFrom 0 rest := by
  rw [removeFrom, if_pos ⟨many, rfl⟩]

theorem removeFrom_of_plain {zeros : Nat} {byte : UInt8} (plain : ¬(2 ≤ zeros ∧ byte = guardByte))
    (rest : Bytes) :
    removeFrom zeros (byte :: rest) = byte :: removeFrom (countZeros zeros byte) rest := by
  rw [removeFrom, if_neg plain]

/-- What was put in behind some zeros is taken out behind as many. -/
theorem removeFrom_insertFrom (zeros : Nat) (bytes : Bytes) :
    removeFrom zeros (insertFrom zeros bytes) = bytes := by
  induction bytes generalizing zeros with
  | nil => rfl
  | cons byte rest ih =>
    rw [insertFrom]
    by_cases guarded : 2 ≤ zeros ∧ byte ≤ guardByte
    · have first : ¬(2 ≤ 0 ∧ byte = guardByte) := by
        rintro ⟨many, -⟩
        exact absurd many (by decide)
      rw [if_pos guarded, removeFrom_of_guard guarded.1, removeFrom_of_plain first, ih]
    · have plain : ¬(2 ≤ zeros ∧ byte = guardByte) := by
        rintro ⟨many, rfl⟩
        exact guarded ⟨many, UInt8.le_refl guardByte⟩
      rw [if_neg guarded, removeFrom_of_plain plain, ih]

/-- A NAL unit carries the bytes that it was made for. -/
theorem remove_insert (bytes : Bytes) : remove (insert bytes) = bytes :=
  removeFrom_insertFrom 0 bytes

/-! ## Behind two zeros -/

/-- Wherever two zeros in a row have a byte behind them, `law` holds of this byte and of what follows
    it. -/
def BehindZeros (law : UInt8 → Bytes → Prop) (bytes : Bytes) : Prop :=
  ∀ byte rest, 0 :: 0 :: byte :: rest <:+ bytes → law byte rest

/-- Nothing needs a guard byte. -/
def Plain : Bytes → Prop :=
  BehindZeros fun byte _ => guardByte < byte

/-- What follows two zeros is no start of another unit. Where it is a guard byte, the byte that it
    guards comes next. -/
def Guarded : Bytes → Prop :=
  BehindZeros fun byte rest => guardByte ≤ byte ∧
    (byte = guardByte → ∃ next more, rest = next :: more ∧ next ≤ guardByte)

section BehindZeros

variable {law : UInt8 → Bytes → Prop} {zeros : Nat}

theorem behindZeros_cons (first : UInt8) (rest : Bytes) :
    BehindZeros law (first :: rest) ↔
      (∀ byte more, 0 :: 0 :: byte :: more = first :: rest → law byte more) ∧
        BehindZeros law rest := by
  simp only [BehindZeros, List.suffix_cons_iff, or_imp, forall_and]

/-- Two zeros have nothing behind them yet. -/
theorem behindZeros_replicate (few : zeros ≤ 2) : BehindZeros law (List.replicate zeros 0) := by
  intro byte rest found
  have length := found.length_le
  simp only [List.length_cons, List.length_replicate] at length
  omega

/-- A byte behind some zeros is under the law if they are two, and then counts among the zeros or
    ends them. -/
theorem behindZeros_step (few : zeros ≤ 2) (byte : UInt8) (rest : Bytes) :
    BehindZeros law (List.replicate zeros 0 ++ byte :: rest) ↔
      (2 ≤ zeros → law byte rest) ∧
        BehindZeros law (List.replicate (countZeros zeros byte) 0 ++ rest) := by
  have place : zeros = 0 ∨ zeros = 1 ∨ zeros = 2 := by omega
  by_cases zero : byte = 0
  · rcases place with rfl | rfl | rfl <;>
      simp [zero, countZeros, behindZeros_cons, List.replicate_succ]
  · rcases place with rfl | rfl | rfl <;>
      simp [zero, countZeros, behindZeros_cons, List.replicate_succ, eq_comm]

/-- A byte that needs no guard does not make more than two zeros. -/
theorem countZeros_le (few : zeros ≤ 2) {byte : UInt8} (plain : ¬(2 ≤ zeros ∧ byte ≤ guardByte)) :
    countZeros zeros byte ≤ 2 := by
  rw [countZeros]
  split
  next zero =>
    subst zero
    have small : (0 : UInt8) ≤ guardByte := by decide
    have less : ¬ 2 ≤ zeros := fun many => plain ⟨many, small⟩
    omega
  next => omega

end BehindZeros

/-- Behind the zeros that are counted, everything that is put out is guarded. -/
theorem guarded_insertFrom {zeros : Nat} (few : zeros ≤ 2) (bytes : Bytes) :
    Guarded (List.replicate zeros 0 ++ insertFrom zeros bytes) := by
  induction bytes generalizing zeros with
  | nil =>
    rw [insertFrom, List.append_nil]
    exact behindZeros_replicate few
  | cons byte rest ih =>
    rw [insertFrom, Guarded]
    by_cases needed : 2 ≤ zeros ∧ byte ≤ guardByte
    · -- the guard byte ends the zeros, so that the byte it guards stands behind none
      have none : countZeros zeros guardByte = 0 := rfl
      have one : countZeros 0 byte ≤ 2 := countZeros_le (by decide) fun many => by omega
      rw [if_pos needed, behindZeros_step few, none, behindZeros_step (by decide)]
      refine ⟨fun _ => ⟨UInt8.le_refl guardByte, fun _ => ⟨byte, _, rfl, needed.2⟩⟩, ?_, ih one⟩
      intro many
      omega
    · rw [if_neg needed, behindZeros_step few]
      refine ⟨fun many => ?_, ih (countZeros_le few needed)⟩
      have above : guardByte < byte := UInt8.not_le.1 fun small => needed ⟨many, small⟩
      exact ⟨UInt8.le_of_lt above, fun same => absurd (same ▸ above) (UInt8.lt_irrefl _)⟩

theorem length_le_insertFrom (zeros : Nat) (bytes : Bytes) :
    bytes.length ≤ (insertFrom zeros bytes).length := by
  induction bytes generalizing zeros with
  | nil => exact Nat.le_refl 0
  | cons byte rest ih =>
    rw [insertFrom]
    split
    next =>
      have more := ih (countZeros 0 byte)
      simp only [List.length_cons]
      omega
    next => exact Nat.succ_le_succ (ih _)

/-- Nothing is put in exactly where nothing needs it. -/
theorem insertFrom_eq_self_iff {zeros : Nat} (few : zeros ≤ 2) (bytes : Bytes) :
    insertFrom zeros bytes = bytes ↔ Plain (List.replicate zeros 0 ++ bytes) := by
  induction bytes generalizing zeros with
  | nil =>
    rw [List.append_nil]
    exact iff_of_true rfl (behindZeros_replicate few)
  | cons byte rest ih =>
    rw [insertFrom, Plain, behindZeros_step few]
    by_cases needed : 2 ≤ zeros ∧ byte ≤ guardByte
    · rw [if_pos needed]
      refine iff_of_false (fun same => ?_) fun ⟨above, _⟩ => ?_
      · have more := length_le_insertFrom (countZeros 0 byte) rest
        have lengths := congrArg List.length same
        simp only [List.length_cons] at lengths
        omega
      · exact UInt8.not_le.2 (above needed.1) needed.2
    · have above : 2 ≤ zeros → guardByte < byte := fun many =>
        UInt8.not_le.1 fun small => needed ⟨many, small⟩
      rw [if_neg needed, List.cons_inj_right, ih (countZeros_le few needed)]
      exact (and_iff_right above).symm

/-- A NAL unit carries exactly the bytes that it was made for. Behind two zeros it never has a byte of
    at most two, and a three there has a byte of at most three behind it. The unit is the bytes
    themselves exactly where these do not have a byte of at most three behind two zeros. -/
theorem insert_guards (bytes : Bytes) :
    remove (insert bytes) = bytes ∧ Guarded (insert bytes) ∧ (insert bytes = bytes ↔ Plain bytes) :=
  ⟨remove_insert bytes, guarded_insertFrom (Nat.zero_le 2) bytes,
    insertFrom_eq_self_iff (Nat.zero_le 2) bytes⟩

/-- A run of zeros is broken up, and a three that looks like a guard byte gets one. -/
example : insert [0, 0, 0, 0, 3, 1] = [0, 0, 3, 0, 0, 3, 3, 1] := by decide

end Av1Tiling.Sei.Emulation
