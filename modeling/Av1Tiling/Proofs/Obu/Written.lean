import Av1Tiling.Proofs.Checked
import Av1Tiling.Proofs.Obu.Writing

/-!
# What a written OBU is

An OBU whose payload was written by some steps is its header, the shortest code of its size and the
bytes that these steps have made up, whether or not it was known before that they fit.
-/

namespace Av1Tiling

open Write

namespace BitWriter

/-- What was added from the start of one byte to the start of another are whole bytes. -/
theorem Extends.takes {front behind : BitWriter} {more : Bits}
    (extends_ : front.Extends more behind) (start : front.pending = []) (stop : behind.pending = []) :
    ∃ data, more = Bits.ofBytes data ∧ front.Takes data behind := by
  obtain ⟨data, contents, same⟩ := extends_.exists_taken start
  rw [stop, List.append_nil] at same
  exact ⟨data, same, stop, contents, extends_.capacity⟩

end BitWriter

namespace Emit

variable {writer behind : BitWriter}

theorem requireAligned_eq_ok {boundary : Boundary} {value : Unit}
    (run : requireAligned boundary writer = .ok value behind) :
    writer.pending = [] ∧ writer = behind := by
  rw [requireAligned, Step.get_bind] at run
  split at run
  next aligned =>
    cases run
    exact ⟨aligned_iff.1 aligned, rfl⟩
  next => cases run

theorem aside_grows {step : Write Unit} {data : Bytes}
    (appends : Appends step (Bits.ofBytes data) ()) :
    Grows (aside step data.length) (· = Bits.ofBytes data) := by
  rw [aside_eq appends]
  exact Grows.forM data fun byte => by
    have grows := bytes_grows [byte]
    rwa [Bits.ofBytes_singleton] at grows

theorem writeWithoutSize_grows {header : ObuHeader} (inRange : header.InRange) :
    Grows header.writeWithoutSize (· = Bits.ofBytes header.opening) := by
  have fixed := aside_grows (ObuHeader.writeFixed_appends inRange)
  rw [header.length_opening] at fixed
  refine (fixed.bind fun _ _ _ _ => .pure header.fixedSize).mono ?_
  rintro _ ⟨_, _, rfl, rfl, rfl⟩
  exact List.append_nil _

theorem reserveSize_grows :
    Grows reserveSize (· = Bits.ofBytes (List.replicate reservation 0)) := by
  have word := (bytes_grows (Bytes.ofNatBE 4 0)).emit
  refine .stays_bind (fun _ _ _ run => (requireAligned_eq_ok run).2.symm) fun _ _ _ _ => ?_
  refine .stays_bind (fun _ _ _ run => by cases run; rfl) fun _ _ _ _ => ?_
  refine (word.bind fun _ _ _ _ => word.bind fun _ _ _ _ => .pure _).mono ?_
  rintro _ ⟨_, _, rfl, ⟨_, _, rfl, rfl, rfl⟩, rfl⟩
  rw [List.append_nil, ← Bits.ofBytes_append]
  rfl

theorem trailingBits_grows : Grows trailingBits Any :=
  (bit_grows true).emit.bind_any fun _ => align_grows.emit

theorem finalizeSize_eq_ok {field : SizeField} {length : Nat}
    (run : finalizeSize field writer = .ok length behind) :
    field.offset + reservation + length = writer.buffer.size ∧ length ≤ maxPayload := by
  obtain ⟨_, _, first, run⟩ := Step.bind_eq_ok.1 run
  obtain ⟨-, rfl⟩ := requireAligned_eq_ok first
  obtain ⟨stop, between, second, run⟩ := Step.bind_eq_ok.1 run
  obtain ⟨rfl, rfl⟩ : writer.buffer.size = stop ∧ writer = between := by
    cases second
    exact ⟨rfl, rfl⟩
  cases inside : Checked.sub writer.buffer.size (field.offset + reservation) with
  | error cause =>
    rw [inside] at run
    cases run
  | ok found =>
    rw [liftFault_bind inside] at run
    obtain ⟨ordered, rfl⟩ := Checked.sub_eq_ok_iff.1 inside
    split at run
    next => cases run
    next fits =>
      obtain ⟨_, _, -, run⟩ := Step.bind_eq_ok.1 run
      obtain ⟨_, _, -, run⟩ := Step.bind_eq_ok.1 run
      obtain ⟨_, _, -, run⟩ := Step.bind_eq_ok.1 run
      cases run
      exact ⟨by omega, Nat.le_of_not_lt fits⟩

/-- Whatever closes a payload stands behind what was written. -/
theorem closed_grows {payload : Emit Unit} {adds : Bits → Prop} (grows : Grows payload adds)
    (trailing : Bool) : Grows (closed trailing payload) fun more =>
      ∃ content rest, adds content ∧ (trailing = false → rest = []) ∧ more = content ++ rest := by
  cases trailing with
  | false =>
    refine (grows.bind fun _ _ _ _ => .pure _).mono ?_
    rintro _ ⟨content, _, added, rfl, rfl⟩
    exact ⟨content, [], added, fun _ => rfl, rfl⟩
  | true =>
    refine (grows.bind fun _ _ _ _ => trailingBits_grows).mono ?_
    rintro _ ⟨content, rest, added, -, rfl⟩
    exact ⟨content, rest, added, nofun, rfl⟩

/-! ## The whole OBU -/

variable {header : ObuHeader} {trailing : Bool} {payload : Emit Unit}

/-- Whatever led up to a payload, the room for its size is there. -/
theorem started_eq_ok (inRange : header.InRange) (tight : writer.Tight) {field : SizeField}
    (run : started header writer = .ok field behind) :
    writer.pending = [] ∧
      writer.buffer.size + header.fixedSize + reservation ≤ writer.buffer.capacity ∧
      field = ⟨writer.buffer.size + header.fixedSize⟩ ∧ behind = handed header writer := by
  obtain ⟨_, _, run₀, run'⟩ := Step.bind_eq_ok.1 run
  obtain ⟨aligned, rfl⟩ := requireAligned_eq_ok run₀
  obtain ⟨_, first, run₁, run₂⟩ := Step.bind_eq_ok.1 run'
  obtain ⟨tight₁, _, rfl, extends₁⟩ := (writeWithoutSize_grows inRange).emit _ _ _ tight run₁
  have takes₁ := takes_of_extends aligned extends₁
  obtain ⟨tight₂, _, rfl, extends₂⟩ := reserveSize_grows _ _ _ tight₁ run₂
  have takes := takes₁.trans (takes_of_extends takes₁.aligned extends₂)
  have size := takes.size
  have capacity := takes.capacity
  rw [List.length_append, List.length_replicate, header.length_opening] at size
  have fits := tight₂.size
  have room : writer.buffer.size + header.fixedSize + reservation ≤ writer.buffer.capacity := by
    omega
  obtain ⟨rfl, rfl⟩ := EStateM.Result.ok.inj (run.symm.trans (started_run inRange aligned room))
  exact ⟨aligned, room, rfl, rfl⟩

theorem tight_handed (tight : writer.Tight)
    (room : writer.buffer.size + header.fixedSize + reservation ≤ writer.buffer.capacity) :
    (handed header writer).Tight := by
  refine ⟨tight.pending, ?_⟩
  rw [size_handed]
  exact room

/-- An OBU that was written has a payload that has ended with a byte, for which there was room. -/
theorem obu_eq_ok (inRange : header.InRange) (tight : writer.Tight) {count : Nat}
    (run : obu header trailing payload writer = .ok count behind) :
    writer.pending = [] ∧
      writer.buffer.size + header.fixedSize + reservation ≤ writer.buffer.capacity ∧
      ∃ third, closed trailing payload (handed header writer) = .ok () third ∧
        third.pending = [] ∧ third.buffer.size = (handed header writer).buffer.size + count ∧
        count ≤ maxPayload := by
  rw [obu_started] at run
  obtain ⟨field, second, run₁, run⟩ := Step.bind_eq_ok.1 run
  obtain ⟨aligned, room, rfl, rfl⟩ := started_eq_ok inRange tight run₁
  obtain ⟨_, third, run₂, run⟩ := Step.bind_eq_ok.1 run
  obtain ⟨_, _, run₃, run₄⟩ := Step.bind_eq_ok.1 run
  obtain ⟨stop, rfl⟩ := requireAligned_eq_ok run₃
  obtain ⟨whole, short⟩ := finalizeSize_eq_ok run₄
  rw [size_handed]
  exact ⟨aligned, room, third, run₂, stop, whole.symm, short⟩

/-- An OBU that was not written broke off in front of its payload, in it, or behind it. -/
theorem obu_eq_error (inRange : header.InRange) (tight : writer.Tight) {cause : Failure ObuError}
    (run : obu header trailing payload writer = .error cause behind) :
    started header writer = .error cause behind ∨
      writer.pending = [] ∧
        writer.buffer.size + header.fixedSize + reservation ≤ writer.buffer.capacity ∧
        (closed trailing payload (handed header writer) = .error cause behind ∨
          ∃ third, closed trailing payload (handed header writer) = .ok () third ∧
            (requireAligned .endObu third = .error cause behind ∨
              third.pending = [] ∧
                finalizeSize ⟨writer.buffer.size + header.fixedSize⟩ third =
                  .error cause behind)) := by
  rw [obu_started] at run
  rcases Step.bind_eq_error.1 run with run | ⟨field, second, run₁, run⟩
  · exact .inl run
  obtain ⟨aligned, room, rfl, rfl⟩ := started_eq_ok inRange tight run₁
  refine .inr ⟨aligned, room, ?_⟩
  rcases Step.bind_eq_error.1 run with run | ⟨_, third, run₂, run⟩
  · exact .inl run
  refine .inr ⟨third, run₂, ?_⟩
  rcases Step.bind_eq_error.1 run with run | ⟨_, _, run₃, run⟩
  · exact .inl run
  obtain ⟨stop, rfl⟩ := requireAligned_eq_ok run₃
  exact .inr ⟨stop, run⟩

/-- An OBU that was written has a payload that its steps have made up. -/
theorem obu_written (inRange : header.InRange) {adds : Bits → Prop}
    (grows : Grows (closed trailing payload) adds) {count : Nat} (tight : writer.Tight)
    (run : obu header trailing payload writer = .ok count behind) :
    ∃ data, adds (Bits.ofBytes data) ∧ data.length ≤ maxPayload ∧
      writer.Takes (Obu.coded header data) behind ∧ behind.Tight := by
  obtain ⟨aligned, room, third, ended, stop, whole, short⟩ := obu_eq_ok inRange tight run
  obtain ⟨tight', more, added, extends_⟩ := grows _ _ _ (tight_handed tight room) ended
  have start : (handed header writer).pending = [] := aligned
  obtain ⟨data, rfl, takes⟩ := extends_.takes start stop
  have size := takes.size
  obtain rfl : data.length = count := by omega
  obtain ⟨_, again, taken⟩ := obu_run inRange aligned room ended takes short
  obtain ⟨-, rfl⟩ := EStateM.Result.ok.inj (run.symm.trans again)
  refine ⟨data, added, short, taken, ?_, ?_⟩
  · rw [taken.aligned]
    decide
  · -- the size is no longer than the room that was left for it
    have fits := tight'.size
    have code := length_size_le short
    have length := taken.size
    have capacity : third.buffer.capacity = writer.buffer.capacity := takes.capacity
    rw [size_handed] at size
    rw [Obu.length_coded] at length
    rw [taken.capacity]
    omega

end Emit

end Av1Tiling
