import Av1Tiling.Proofs.Bits.Calls
import Av1Tiling.Proofs.Obu.Written

/-!
# Sizes that are filled in

An OBU whose size is filled in behind its payload is the one that is written at once where the payload
is known, whatever calls the payload is made up of (`obu_calling`). For this the payload has to end
with a byte and to fit behind all the room that is left for its size, although the size mostly takes
less. An OBU that is not written leaves what was there before it.
-/

namespace Av1Tiling

open Write

namespace BitWriter

/-- The bytes open with `front`, and there are at most `most` of them. -/
structure Retains (front : Bytes) (most : Nat) (writer : BitWriter) : Prop where
  contents : front <+: writer.contents
  capacity : writer.buffer.capacity = most
  size : writer.buffer.size ≤ most

variable {front : Bytes} {most : Nat} {writer : BitWriter}

theorem Retains.put {data : Bytes} (retains : writer.Retains front most)
    (taken : writer.buffer.refusal data.length = none) :
    (writer.put data).Retains front most := by
  obtain ⟨contents, rfl, size⟩ := retains
  have fits := (refusal_eq_none_iff size).1 taken
  refine ⟨?_, rfl, ?_⟩
  · rw [contents_put]
    exact contents.trans (List.prefix_append _ _)
  · rw [size_put]
    exact fits

/-- Nothing that is written gets at the bytes that are there. -/
theorem retains_lasting (front : Bytes) (most : Nat) : Lasting (Retains front most) where
  bit value := by
    intro writer retains
    rw [bit]
    by_cases last : writer.pending.length = 7
    · simp only [if_pos last]
      cases taken : writer.buffer.refusal 1 with
      | some refused => exact ⟨trivial, retains.contents, retains.capacity, retains.size⟩
      | none =>
        have more : (writer.put [Bits.toByte (writer.pending ++ [value])]).Retains front most :=
          retains.put taken
        exact ⟨trivial, more.contents, more.capacity, more.size⟩
    · rw [if_neg last]
      by_cases stuck : 7 < writer.pending.length ∧ (value = true ∨ writer.pending.length = 255)
      · rw [if_pos stuck]
        exact ⟨trivial, retains⟩
      · rw [if_neg stuck]
        exact ⟨trivial, retains.contents, retains.capacity, retains.size⟩
  put _ _ retains _ taken := retains.put taken

end BitWriter

namespace Write

variable {ε α : Type} {holds : BitWriter → Prop} {writer : BitWriter}

theorem aside_maintains (lasting : Lasting holds) (step : Write Unit) (capacity : Nat) :
    Maintains holds (aside step capacity) := by
  have each (data : Bytes) : Maintains holds (data.forM fun byte => bytes [byte]) :=
    .forM fun byte _ => lasting.call (.bytes [byte])
  rw [aside]
  cases step.run (.empty capacity) with
  | ok _ own => exact each own.contents
  | error cause own =>
    cases cause with
    | raised error => exact (each own.contents).bind fun _ _ => .throw trivial
    | fault cause => exact .throw trivial

/-- A step of bits is a step of OBUs that leaves the same behind. -/
theorem Maintains.emit {step : Write α} (maintains : Maintains holds step) :
    Maintains holds (liftM step : Emit α) := by
  intro writer start
  have known := maintains writer start
  simp only [liftM, monadLift, MonadLift.monadLift]
  cases run : step writer with
  | ok value behind =>
    rw [run] at known
    exact known
  | error cause behind =>
    rw [run] at known
    exact known

end Write

namespace WriteCall

variable {writer behind : BitWriter} {calls : List WriteCall}

/-- Between two bytes, calls for which there is room are taken if they make up whole bytes. -/
theorem runAll_takes (valid : ∀ call ∈ calls, call.Valid) {data : Bytes}
    (whole : Bits.ofBytes data = codes 0 calls) (aligned : writer.pending = [])
    (fits : writer.buffer.size + data.length ≤ writer.buffer.capacity) :
    ∃ behind, runAll calls writer = .ok () behind ∧ writer.Takes data behind := by
  have same : codes writer.bits.length calls = Bits.ofBytes data := by
    rw [bits_of_aligned aligned, Bits.length_ofBytes, whole]
    exact codes_add _ 0 calls
  have room := room_of_aligned aligned fits
  rw [← Bits.length_ofBytes, ← same] at room
  obtain ⟨behind, run, extends_⟩ := runAll_extends valid room
  rw [same] at extends_
  exact ⟨behind, run, takes_of_extends aligned extends_⟩

/-- Calls that have led from the start of one byte to the start of another. -/
theorem runAll_taken (tight : writer.Tight) (start : writer.pending = [])
    (run : runAll calls writer = .ok () behind) (stop : behind.pending = []) :
    ∃ data, Bits.ofBytes data = codes 0 calls ∧ behind.Tight ∧ writer.Takes data behind := by
  obtain ⟨-, tight', extends_⟩ := runAll_sound tight run
  have same : codes writer.bits.length calls = codes 0 calls := by
    rw [bits_of_aligned start, Bits.length_ofBytes]
    exact codes_add _ 0 calls
  obtain ⟨data, whole, takes⟩ := extends_.takes start stop
  exact ⟨data, whole.symm.trans same, tight', takes⟩

end WriteCall

namespace Emit

variable {writer behind : BitWriter} {holds : BitWriter → Prop}

/-! ## The steps around a payload -/

/-- A payload of calls that it chooses by the writer which it is handed. It breaks off with the first
    call that fails. -/
def calling (plan : BitWriter → List WriteCall) : Emit Unit := do
  WriteCall.runAll (plan (← get))

/-- The calls that close a payload. -/
def trailer (trailing : Bool) : List WriteCall :=
  if trailing then [.bit true, .align] else []

theorem emit_bind {α β : Type} (first : Write α) (next : α → Write β) :
    (liftM (first >>= next) : Emit β) =
      liftM first >>= fun value => (liftM (next value) : Emit β) := by
  funext writer
  simp only [liftM, monadLift, MonadLift.monadLift, bind, EStateM.bind]
  cases first writer with
  | ok value between => rfl
  | error cause between => rfl

theorem trailingBits_eq :
    trailingBits = (liftM (WriteCall.runAll (trailer true)) : Emit Unit) := by
  have calls : WriteCall.runAll (trailer true) = (do
      Write.bit true
      Write.align) := by
    simp [WriteCall.runAll, trailer, WriteCall.run]
  rw [calls, emit_bind]
  rfl

theorem closed_calling (trailing : Bool) (plan : BitWriter → List WriteCall) (writer : BitWriter) :
    closed trailing (calling plan) writer =
      (liftM (WriteCall.runAll (plan writer ++ trailer trailing)) : Emit Unit) writer := by
  have split : WriteCall.runAll (plan writer ++ trailer trailing) =
      WriteCall.runAll (plan writer) >>= fun _ => WriteCall.runAll (trailer trailing) :=
    List.forM_append
  rw [split, emit_bind]
  cases trailing with
  | false => rfl
  | true =>
    rw [← trailingBits_eq]
    rfl

theorem requireAligned_maintains (boundary : Boundary) :
    Maintains holds (requireAligned boundary) := by
  intro writer start
  rw [requireAligned, Step.get_bind]
  cases writer.aligned with
  | true => exact ⟨trivial, start⟩
  | false => exact ⟨trivial, start⟩

theorem started_maintains (lasting : Lasting holds) (header : ObuHeader) :
    Maintains holds (started header) := by
  have word : Maintains holds (liftM (Write.bytes (Bytes.ofNatBE 4 0)) : Emit Unit) :=
    Maintains.emit (lasting.call (.bytes (Bytes.ofNatBE 4 0)))
  have opened : Maintains holds (liftM header.writeWithoutSize : Emit Nat) :=
    Maintains.emit ((aside_maintains lasting _ _).bind fun _ _ => .pure trivial)
  have sized : Maintains holds size := fun _ start => ⟨trivial, start⟩
  have reserved : Maintains holds reserveSize :=
    (requireAligned_maintains _).bind fun _ _ => sized.bind fun _ _ =>
      word.bind fun _ _ => word.bind fun _ _ => .pure trivial
  exact (requireAligned_maintains _).bind fun _ _ => opened.bind fun _ _ => reserved

theorem closed_maintains (lasting : Lasting holds) (trailing : Bool)
    (plan : BitWriter → List WriteCall) : Maintains holds (closed trailing (calling plan)) := by
  intro writer start
  rw [closed_calling]
  exact Maintains.emit (lasting.runAll _) writer start

theorem finalizeSize_refuses {offset : Nat} (aligned : writer.pending = [])
    (long : offset + reservation + maxPayload < writer.buffer.size) :
    finalizeSize ⟨offset⟩ writer = .error (.raised .sizeTooLarge) writer := by
  have sized : size writer = .ok writer.buffer.size writer := rfl
  have length := Checked.sub_eq_ok (by omega : offset + reservation ≤ writer.buffer.size)
  rw [finalizeSize, Step.bind_of_ok (requireAligned_run .finalizeSize aligned),
    Step.bind_of_ok sized, liftFault_bind length, if_pos (by omega)]
  rfl

/-! ## The whole OBU -/

variable {header : ObuHeader} {trailing : Bool} {plan : BitWriter → List WriteCall}

/-- The bits of a payload, with those that close it. -/
def content (header : ObuHeader) (trailing : Bool) (plan : BitWriter → List WriteCall)
    (writer : BitWriter) : Bits :=
  WriteCall.codes 0 (plan (handed header writer) ++ trailer trailing)

/-- The writer behind a payload that ends with a byte. -/
theorem closed_taken (tight : (handed header writer).Tight) (start : writer.pending = [])
    (run : closed trailing (calling plan) (handed header writer) = .ok () behind)
    (stop : behind.pending = []) :
    ∃ data, Bits.ofBytes data = content header trailing plan writer ∧ behind.Tight ∧
      (handed header writer).Takes data behind := by
  rw [closed_calling] at run
  exact WriteCall.runAll_taken tight start (emit_eq_ok.1 run) stop

/-- An OBU that could not be written leaves what was there before it. -/
theorem obu_calling_eq_error (inRange : header.InRange) (tight : writer.Tight)
    {cause : Failure ObuError}
    (run : obu header trailing (calling plan) writer = .error cause behind) :
    behind.Retains writer.contents writer.buffer.capacity := by
  have lasting := BitWriter.retains_lasting writer.contents writer.buffer.capacity
  have start : writer.Retains writer.contents writer.buffer.capacity :=
    ⟨List.prefix_rfl, rfl, tight.size⟩
  rcases obu_eq_error inRange tight run with run | ⟨aligned, room, later⟩
  · exact ((started_maintains lasting header).of_error start run).2
  have begun := ((started_maintains lasting header).of_ok start
    (started_run inRange aligned room)).2
  have payload := closed_maintains lasting trailing plan
  rcases later with run | ⟨third, ended, run | ⟨stop, run⟩⟩
  · exact (payload.of_error begun run).2
  · exact ((requireAligned_maintains _).of_error (payload.of_ok begun ended).2 run).2
  obtain ⟨data, -, -, takes⟩ := closed_taken (tight_handed tight room) aligned ended stop
  -- the size is filled in, or it is too large and nothing is touched
  by_cases short : data.length ≤ maxPayload
  · obtain ⟨_, success, -⟩ := finalizeSize_run stop (contents_of_takes takes) short
    rw [length_front] at success
    cases success.symm.trans run
  · have size := takes.size
    rw [size_handed] at size
    have refused := finalizeSize_refuses stop
      (by omega : writer.buffer.size + header.fixedSize + reservation + maxPayload < _)
    obtain ⟨-, rfl⟩ := EStateM.Result.error.inj (refused.symm.trans run)
    exact (payload.of_ok begun ended).2

/-- An OBU is written if the room for its size and its payload fit, and its payload is whole bytes. -/
theorem obu_calling_fits (inRange : header.InRange) (aligned : writer.pending = [])
    (valid : ∀ call ∈ plan (handed header writer), call.Valid) {data : Bytes}
    (whole : Bits.ofBytes data = content header trailing plan writer)
    (fits : writer.buffer.size + header.fixedSize + reservation + data.length ≤
      writer.buffer.capacity) (short : data.length ≤ maxPayload) :
    ∃ behind, obu header trailing (calling plan) writer = .ok data.length behind ∧
      writer.Takes (Obu.coded header data) behind := by
  have each : ∀ call ∈ plan (handed header writer) ++ trailer trailing, call.Valid := by
    intro call member
    rcases List.mem_append.1 member with own | closing
    · exact valid call own
    · cases trailing with
      | false => cases closing
      | true =>
        simp only [trailer, if_true, List.mem_cons, List.not_mem_nil, or_false] at closing
        rcases closing with rfl | rfl
        · trivial
        · trivial
  have room : (handed header writer).buffer.size + data.length ≤ writer.buffer.capacity := by
    rw [size_handed]
    exact fits
  have start : (handed header writer).pending = [] := aligned
  obtain ⟨third, run, takes⟩ := WriteCall.runAll_takes each whole start room
  have ended : closed trailing (calling plan) (handed header writer) = .ok () third := by
    rw [closed_calling]
    exact emit_eq_ok.2 run
  exact obu_run inRange aligned (by omega) ended takes short

theorem obu_calling_eq_ok (inRange : header.InRange) (tight : writer.Tight) {count : Nat}
    (run : obu header trailing (calling plan) writer = .ok count behind) :
    ∃ data, Bits.ofBytes data = content header trailing plan writer ∧
      writer.buffer.size + header.fixedSize + reservation + data.length ≤ writer.buffer.capacity ∧
      data.length ≤ maxPayload := by
  obtain ⟨aligned, room, third, ended, stop, whole, short⟩ := obu_eq_ok inRange tight run
  obtain ⟨data, same, tight', takes⟩ := closed_taken (tight_handed tight room) aligned ended stop
  have size := takes.size
  have fits := tight'.size
  have capacity : third.buffer.capacity = writer.buffer.capacity := takes.capacity
  have handed := size_handed header writer
  exact ⟨data, same, by omega, by omega⟩

/-- The bytes that are written at once where the payload is known, by a writer with as much room. -/
theorem write_direct (inRange : header.InRange) {data : Bytes} {capacity : Nat}
    (fits : (Obu.coded header data).length ≤ capacity) :
    ∃ direct, Obu.write header.type header.extension data (.empty capacity) =
        .ok direct.contents.length direct ∧ direct.contents = Obu.coded header data := by
  have room : (BitWriter.empty capacity).buffer.size + (Obu.coded header data).length + 0 ≤
      capacity := by
    show 0 + _ + 0 ≤ _
    omega
  obtain ⟨direct, run, takes⟩ := (Obu.write_appends inRange data).puts 0 (.empty capacity) rfl room
  have contents : direct.contents = Obu.coded header data := takes.contents
  refine ⟨direct, ?_, contents⟩
  rw [contents]
  exact run

/-- Between two bytes, an OBU is written exactly where its payload, closed or not, is whole bytes,
    where they fit behind the header and the whole room for their number, and where that number has
    32 bits. What is written is what is written at once with this payload. In every case the bytes
    that were there are there and no more than fit. -/
theorem obu_calling (trailing : Bool) (inRange : header.InRange) (aligned : writer.pending = [])
    (tight : writer.buffer.size ≤ writer.buffer.capacity)
    (valid : ∀ call ∈ plan (handed header writer), call.Valid) :
    ((∃ count behind, obu header trailing (calling plan) writer = .ok count behind) ↔
      (content header trailing plan writer).length % 8 = 0 ∧
        writer.buffer.size + header.fixedSize + reservation +
          (content header trailing plan writer).length / 8 ≤ writer.buffer.capacity ∧
        (content header trailing plan writer).length / 8 < 2 ^ 32) ∧
      match obu header trailing (calling plan) writer with
      | .ok count behind =>
        behind.Retains writer.contents writer.buffer.capacity ∧ behind.pending = [] ∧
          ∃ data direct, Bits.ofBytes data = content header trailing plan writer ∧
            count = data.length ∧
            Obu.write header.type header.extension data (.empty writer.buffer.capacity) =
              .ok direct.contents.length direct ∧
            behind.contents = writer.contents ++ direct.contents
      | .error _ behind => behind.Retains writer.contents writer.buffer.capacity := by
  have ready : writer.Tight := ⟨by rw [aligned]; exact Nat.zero_lt_succ 7, tight⟩
  constructor
  · constructor
    · rintro ⟨count, behind, run⟩
      obtain ⟨data, whole, fits, short⟩ := obu_calling_eq_ok inRange ready run
      have length := congrArg List.length whole
      rw [Bits.length_ofBytes] at length
      rw [maxPayload] at short
      omega
    · rintro ⟨whole, fits, short⟩
      obtain ⟨data, same⟩ := Bits.exists_ofBytes whole
      have length := congrArg List.length same
      rw [Bits.length_ofBytes] at length
      have few : data.length ≤ maxPayload := by
        rw [maxPayload]
        omega
      obtain ⟨behind, run, -⟩ := obu_calling_fits inRange aligned valid same (by omega) few
      exact ⟨_, behind, run⟩
  · cases run : obu header trailing (calling plan) writer with
    | error cause behind => exact obu_calling_eq_error inRange ready run
    | ok count behind =>
      obtain ⟨data, whole, fits, short⟩ := obu_calling_eq_ok inRange ready run
      obtain ⟨_, again, takes⟩ := obu_calling_fits inRange aligned valid whole fits short
      obtain ⟨rfl, rfl⟩ := EStateM.Result.ok.inj (run.symm.trans again)
      have coded : (Obu.coded header data).length + writer.buffer.size ≤
          writer.buffer.capacity := by
        have code := length_size_le short
        rw [Obu.length_coded]
        omega
      obtain ⟨direct, written, contents⟩ := write_direct inRange (by omega :
        (Obu.coded header data).length ≤ writer.buffer.capacity)
      have size := takes.size
      refine ⟨⟨?_, takes.capacity, by omega⟩, takes.aligned, data, direct, whole, rfl, written, ?_⟩
      · rw [takes.contents]
        exact List.prefix_append _ _
      · rw [takes.contents, contents]

/-- Nine bits that the writer says, and two bytes. -/
def counting (writer : BitWriter) : List WriteCall :=
  [.bits writer.written 9, .bytes [1, 2]]

/-- A writer behind one byte, which is full with two bytes of header, the room for a size and four
    bytes more. -/
def narrow : BitWriter :=
  .onto ⟨15, #[7]⟩

theorem obu_calling_counting :
    let header : ObuHeader := ⟨.frame, none, some ⟨1, 2⟩⟩
    header.InRange ∧ narrow.pending = [] ∧ narrow.buffer.size ≤ narrow.buffer.capacity ∧
      (∀ call ∈ counting (handed header narrow), call.Valid) ∧
      ∃ count behind, obu header true (calling counting) narrow = .ok count behind ∧
        behind.Retains [7] 15 ∧ ∃ data direct,
          Bits.ofBytes data = content header true counting narrow ∧ count = data.length ∧
            Obu.write .frame (some ⟨1, 2⟩) data (.empty 15) = .ok direct.contents.length direct ∧
            behind.contents = [7] ++ direct.contents := by
  intro header
  have inRange : header.InRange := ⟨by decide, by decide, by decide⟩
  have tight : narrow.buffer.size ≤ narrow.buffer.capacity := by decide
  have valid : ∀ call ∈ counting (handed header narrow), call.Valid := by
    simp [counting, WriteCall.Valid]
  have whole : (content header true counting narrow).length = 32 := by decide +kernel
  have known := obu_calling true inRange rfl tight valid
  obtain ⟨count, behind, run⟩ := known.1.2 (by rw [whole]; decide)
  rw [run] at known
  obtain ⟨-, retains, -, written⟩ := known
  exact ⟨inRange, rfl, tight, valid, count, behind, run, retains, written⟩

end Emit

end Av1Tiling
