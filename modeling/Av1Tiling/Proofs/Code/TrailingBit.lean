import Av1Tiling.Code.TrailingBit

/-!
# Content and closing bits

The last one of a payload closes it: the content is what stands in front of it, and zeros are all
that stands behind it.
-/

namespace Av1Tiling.TrailingBit

/-- The last one, its content in front of it and zeros behind it. -/
theorem lastOne_eq_some_iff {bits : Bits} {position : Nat} :
    lastOne bits = some position ↔
      ∃ content zeros, content.length = position ∧
        bits = content ++ true :: List.replicate zeros false := by
  constructor
  · intro found
    induction bits generalizing position with
    | nil => cases found
    | cons bit rest ih =>
      rw [lastOne] at found
      cases later : lastOne rest with
      | some next =>
        rw [later] at found
        cases found
        obtain ⟨content, zeros, length, rfl⟩ := ih later
        exact ⟨bit :: content, zeros, by rw [List.length_cons, length], rfl⟩
      | none =>
        have zeros : rest = List.replicate rest.length false :=
          List.eq_replicate_iff.2 ⟨rfl, lastOne_eq_none_iff.1 later⟩
        rw [later] at found
        cases bit with
        | false => cases found
        | true =>
          cases found
          exact ⟨[], rest.length, rfl, by rw [List.nil_append, ← zeros]⟩
  · rintro ⟨content, zeros, rfl, rfl⟩
    exact lastOne_append content zeros

/-- Zeros behind the last one do not move it. -/
theorem lastOne_append_zeros (bits : Bits) (zeros : Nat) :
    lastOne (bits ++ List.replicate zeros false) = lastOne bits := by
  induction bits with
  | nil => exact lastOne_eq_none_iff.2 fun bit found => List.eq_of_mem_replicate found
  | cons bit rest ih => rw [List.cons_append, lastOne, lastOne, ih]

theorem position_eq_ok {payload : Bytes} {stop : Nat} :
    position payload = .ok stop ↔ lastOne (Bits.ofBytes payload) = some stop := by
  rw [position]
  split
  next found same =>
    rw [same]
    constructor
    · rintro ⟨⟩
      rfl
    · rintro ⟨⟩
      rfl
  next same =>
    rw [same]
    constructor
    · rintro ⟨⟩
    · rintro ⟨⟩

theorem position_cases (payload : Bytes) :
    position payload = .error .noTrailingBit ∨ ∃ stop, position payload = .ok stop := by
  rw [position]
  split
  next stop _ => exact .inr ⟨stop, rfl⟩
  next => exact .inl rfl

/-- The closing bit lies in the payload. -/
theorem position_lt {payload : Bytes} {stop : Nat} (closed : position payload = .ok stop) :
    stop < 8 * payload.length := by
  obtain ⟨content, zeros, rfl, same⟩ := lastOne_eq_some_iff.1 (position_eq_ok.1 closed)
  have length := congrArg List.length same
  rw [Bits.length_ofBytes, List.length_append, List.length_cons] at length
  omega

/-- The position is that of the last one. -/
theorem position_last {payload : Bytes} {stop : Nat} (found : position payload = .ok stop) :
    (Bits.ofBytes payload)[stop]? = some true ∧
      ∀ bit ∈ (Bits.ofBytes payload).drop (stop + 1), bit = false := by
  obtain ⟨content, zeros, rfl, same⟩ := lastOne_eq_some_iff.1 (position_eq_ok.1 found)
  rw [same]
  constructor
  · simp
  · intro bit later
    rw [← List.drop_drop, List.drop_left, List.drop_one, List.tail_cons] at later
    exact List.eq_of_mem_replicate later

end Av1Tiling.TrailingBit
