import Av1Tiling.Proofs.Bits.Growth
import Av1Tiling.Proofs.Obu.Emit

/-!
# Writing with more room

A write that succeeds succeeds in the same way where there is more room (`Widens`). So what it adds
where there is room enough (`Appends`) is what it has added wherever it has succeeded, however
little room there was.
-/

namespace Av1Tiling

/-- The writer with room for `capacity` bytes. -/
def BitWriter.widen (writer : BitWriter) (capacity : Nat) : BitWriter :=
  { writer with buffer := { writer.buffer with capacity } }

@[simp] theorem BitWriter.bits_widen (writer : BitWriter) (capacity : Nat) :
    (writer.widen capacity).bits = writer.bits := rfl

/-- What fits the buffer fits a larger one. -/
theorem BoundedBuffer.refusal_eq_none_of_le {buffer : BoundedBuffer} {count capacity : Nat}
    (le : buffer.capacity ≤ capacity) (taken : buffer.refusal count = none) :
    ({ buffer with capacity } : BoundedBuffer).refusal count = none := by
  rw [refusal, remaining] at taken ⊢
  by_cases full : buffer.capacity - buffer.size < count
  · rw [if_pos full] at taken
    cases taken
  · exact if_neg fun more => full (Nat.lt_of_le_of_lt (Nat.sub_le_sub_right le _) more)

namespace Write

variable {ε α β γ : Type}

/-- Where `step` succeeds, it succeeds in the same way with more room. -/
def Widens (step : EStateM ε BitWriter α) : Prop :=
  ∀ writer value behind capacity, writer.buffer.capacity ≤ capacity →
    step writer = .ok value behind →
      step (writer.widen capacity) = .ok value (behind.widen capacity) ∧
        behind.buffer.capacity = writer.buffer.capacity

namespace Widens

variable {step other : EStateM ε BitWriter α}

protected theorem pure (value : α) : Widens (pure value : EStateM ε BitWriter α) := by
  intro writer found behind capacity _ run
  cases run
  exact ⟨rfl, rfl⟩

protected theorem throw (cause : ε) : Widens (throw cause : EStateM ε BitWriter α) := by
  intro writer found behind capacity _ run
  cases run

theorem throw_bind (cause : ε) (next : α → EStateM ε BitWriter β) :
    Widens (throw cause >>= next) := by
  intro writer found behind capacity _ run
  cases run

protected theorem bind {next : α → EStateM ε BitWriter β} (first : Widens step)
    (second : ∀ value, Widens (next value)) : Widens (step >>= next) := by
  intro writer result behind capacity le run
  obtain ⟨value, between, run₁, run₂⟩ := Step.bind_eq_ok.1 run
  obtain ⟨wide₁, same₁⟩ := first _ _ _ _ le run₁
  obtain ⟨wide₂, same₂⟩ := second value _ _ _ _ (same₁ ▸ le) run₂
  exact ⟨by rw [Step.bind_of_ok wide₁, wide₂], same₂.trans same₁⟩

protected theorem ite {p : Prop} [Decidable p] (first : Widens step) (second : Widens other) :
    Widens (if p then step else other) := by
  split
  · exact first
  · exact second

/-- A step that looks at nothing but the writer's bits. -/
theorem get_bind {next : BitWriter → EStateM ε BitWriter β}
    (blind : ∀ writer capacity, next (writer.widen capacity) = next writer)
    (each : ∀ writer, Widens (next writer)) : Widens (get >>= next) := by
  intro writer value behind capacity le run
  rw [Step.get_bind, blind]
  exact each writer writer value behind capacity le run

/-- A computation writes nothing. -/
protected theorem lift (result : Except StreamError α) : Widens (liftM result : Write α) := by
  cases result with
  | ok value => exact .pure value
  | error cause => exact .throw _

protected theorem liftFault (result : Except Fault α) : Widens (liftM result : Write α) := by
  cases result with
  | ok value => exact .pure value
  | error cause => exact .throw _

theorem liftEmit (result : Except StreamError α) : Widens (liftM result : Emit α) := by
  cases result with
  | ok value => exact .pure value
  | error cause => exact .throw _

/-- A step of bits is a step of OBUs that does the same. -/
theorem emit {step : Write α} (widens : Widens step) : Widens (liftM step : Emit α) := by
  intro writer value behind capacity le run
  obtain ⟨wide, same⟩ := widens _ _ _ _ le (Emit.emit_eq_ok.1 run)
  exact ⟨Emit.emit_eq_ok.2 wide, same⟩

theorem forM {step : γ → EStateM ε BitWriter PUnit} (items : List γ)
    (each : ∀ item, Widens (step item)) : Widens (items.forM step) := by
  induction items with
  | nil => exact .pure _
  | cons item rest ih => exact (each item).bind fun _ => ih

end Widens

/-- What a step adds where there is room is what it has added wherever it has succeeded. -/
theorem Appends.grows {step : EStateM ε BitWriter α} {bits : Bits} {value : α}
    (appends : Appends step bits value) (widens : Widens step) (grows : Grows step Any) :
    Grows step (· = bits) := by
  intro writer found behind tight run
  have tight' := (grows writer found behind tight run).1
  let capacity := writer.buffer.capacity + writer.bits.length + bits.length
  have room : (writer.widen capacity).Room bits.length := by
    refine ⟨tight.pending, ?_⟩
    rw [BitWriter.bits_widen]
    show writer.bits.length + bits.length < 8 * (capacity + 1)
    omega
  obtain ⟨wide, success, added⟩ := appends _ room
  obtain ⟨again, same⟩ := widens writer found behind capacity (by omega) run
  obtain ⟨-, rfl⟩ := EStateM.Result.ok.inj (success.symm.trans again)
  exact ⟨tight', bits, rfl, added.bits, tight'.pending, same⟩

/-! ## Bits and bytes -/

theorem push_widens (data : Bytes) : Widens (push data) := by
  intro writer value behind capacity le run
  rw [push] at run
  cases taken : writer.buffer.refusal data.length with
  | some refused =>
    rw [taken] at run
    cases run
  | none =>
    rw [taken] at run
    cases run
    have again : (writer.widen capacity).buffer.refusal data.length = none :=
      BoundedBuffer.refusal_eq_none_of_le le taken
    exact ⟨by rw [push, again]; rfl, rfl⟩

theorem bit_widens (value : Bool) : Widens (bit value) := by
  rintro ⟨buffer, pending, written⟩ found behind capacity le run
  have larger (count : Nat) (taken : buffer.refusal count = none) :
      ({ buffer with capacity } : BoundedBuffer).refusal count = none :=
    BoundedBuffer.refusal_eq_none_of_le le taken
  have wide : (⟨buffer, pending, written⟩ : BitWriter).widen capacity =
      ⟨{ buffer with capacity }, pending, written⟩ := rfl
  simp only [wide, bit] at run ⊢
  by_cases last : pending.length = 7
  · rw [if_pos last] at run ⊢
    cases taken : buffer.refusal 1 with
    | some cause =>
      rw [taken] at run
      cases run
    | none =>
      rw [taken] at run
      cases run
      rw [larger 1 taken]
      exact ⟨rfl, rfl⟩
  · rw [if_neg last] at run ⊢
    split at run
    next => cases run
    next sound =>
      cases run
      rw [if_neg sound]
      exact ⟨rfl, rfl⟩

theorem fill_widens (value : Bool) (count : Nat) : Widens (fill value count) := by
  induction count with
  | zero => exact .pure _
  | succ count ih => exact (bit_widens value).bind fun _ => ih

theorem bits_widens (value count : Nat) : Widens (bits value count) :=
  .ite (.throw _) (.forM _ bit_widens)

theorem bytes_widens (data : Bytes) : Widens (bytes data) := by
  have count : Widens (modify fun writer : BitWriter =>
      { writer with written := writer.written + 8 * data.length } : Write Unit) := by
    intro writer value behind capacity _ run
    cases run
    exact ⟨rfl, rfl⟩
  exact .get_bind (fun _ _ => rfl) fun _ => .ite ((push_widens data).bind fun _ => count)
    (.forM data fun byte => bits_widens byte.toNat 8)

theorem copy_widens (source : Bytes) (start stop : Nat) : Widens (copy source start stop) := by
  rw [copy_eq]
  exact .ite (.throw_bind _ _) (.get_bind (fun _ _ => rfl) fun _ => .ite (bytes_widens _)
    (.forM _ bit_widens))

end Write

end Av1Tiling
