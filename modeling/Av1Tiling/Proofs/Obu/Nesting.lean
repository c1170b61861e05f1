import Av1Tiling.Proofs.Obu.Written

/-!
# Sizes within sizes

Room for a size can be left while the room for another size has not been filled in yet. As long as
the last room is always filled in first, each region comes to stand behind the shortest code of its
own size, and the sizes within it count as they are written (`runAll_nested`). The positions of the
rooms further out stay where they were, since only what is behind them moves.
-/

namespace Av1Tiling

namespace Leb128

/-- The code is read as the value, and nothing shorter is. -/
structure Shortest (value : Nat) (code : Bytes) : Prop where
  yields : ∀ pos, read.Yields pos (Bits.ofBytes code) value
  least : ∀ reader behind, read reader = .ok value behind →
    reader.pos + 8 * code.length ≤ behind.pos

theorem encode_shortest {value : Nat} (fits : value ≤ maxValue) :
    Shortest value (encode value) := by
  refine ⟨fun pos => read_yields pos fits, fun reader behind run => ?_⟩
  obtain ⟨-, used, advances, short⟩ := read_sound run
  rw [Bits.length_ofBytes] at short
  rw [advances.pos]
  omega

end Leb128

/-- A call on a writer of OBUs. -/
inductive SizeCall
  /-- Leaves room for a size. -/
  | reserve
  /-- Fills in the last room that has not been filled in. -/
  | finalize
  /-- Adds bytes. -/
  | raw (data : Bytes)
  deriving Repr, DecidableEq

namespace SizeCall

/-- Some calls, up to the first that fails. `fields` are the rooms that have not been filled in, the
    last one first. Yields the sizes that were filled in, in order. -/
def runAll : List SizeCall → (fields : List SizeField) → Emit (List Nat)
  | [], _ => return []
  | raw data :: rest, fields => do
    Emit.raw data
    runAll rest fields
  | reserve :: rest, fields => do
    let field ← Emit.reserveSize
    runAll rest (field :: fields)
  | finalize :: rest, field :: fields => do
    let size ← Emit.finalizeSize field
    return size :: (← runAll rest fields)
  | finalize :: rest, [] => runAll rest []

/-- Behind `depth` rooms, there is a room for each call that fills one in, and at the end there is
    none left. -/
def Nested : (depth : Nat) → List SizeCall → Prop
  | depth, [] => depth = 0
  | depth, raw _ :: rest => Nested depth rest
  | depth, reserve :: rest => Nested (depth + 1) rest
  | depth + 1, finalize :: rest => Nested depth rest
  | 0, finalize :: _ => False

end SizeCall

/-- Bytes, and regions with their sizes in front, which are made up of the same. -/
inductive Regions
  | done
  | raw (data : Bytes) (rest : Regions)
  | sized (content rest : Regions)
  deriving Repr, DecidableEq

namespace Regions

/-- The calls that write the regions. -/
def calls : Regions → List SizeCall
  | done => []
  | raw data rest => .raw data :: rest.calls
  | sized content rest => .reserve :: (content.calls ++ .finalize :: rest.calls)

theorem calls_sized_append (content rest : Regions) (more : List SizeCall) :
    (sized content rest).calls ++ more =
      .reserve :: (content.calls ++ .finalize :: (rest.calls ++ more)) := by
  simp [calls]

/-- The bytes of the regions. -/
def bytes : Regions → Bytes
  | done => []
  | raw data rest => data ++ rest.bytes
  | sized content rest =>
    Leb128.encode content.bytes.length ++ (content.bytes ++ rest.bytes)

/-- The sizes of the regions, a region behind those that it holds. -/
def sizes : Regions → List Nat
  | done => []
  | raw _ rest => rest.sizes
  | sized content rest => content.sizes ++ content.bytes.length :: rest.sizes

/-- The most bytes there are at a time while the regions are written. -/
def peak : Regions → Nat
  | done => 0
  | raw data rest => data.length + rest.peak
  | sized content rest =>
    max (Emit.reservation + content.peak)
      ((Leb128.encode content.bytes.length).length + content.bytes.length + rest.peak)

/-- Well nested calls write regions. Behind `depth` rooms, what follows in the region of each of
    these comes first, from the inside out. -/
theorem exists_of_nested_behind {calls : List SizeCall} {depth : Nat}
    (nested : SizeCall.Nested depth calls) :
    ∃ (first : Regions) (outer : List Regions), outer.length = depth ∧
      calls = first.calls ++ outer.flatMap fun rest => .finalize :: rest.calls := by
  induction calls generalizing depth with
  | nil => exact ⟨done, [], nested.symm, rfl⟩
  | cons call rest ih =>
    cases call with
    | raw data =>
      obtain ⟨first, outer, length, rfl⟩ := ih nested
      exact ⟨raw data first, outer, length, rfl⟩
    | reserve =>
      obtain ⟨content, outer, length, rfl⟩ := ih nested
      obtain ⟨first, outer, rfl⟩ := List.exists_cons_of_length_eq_add_one length
      refine ⟨sized content first, outer, Nat.succ.inj length, ?_⟩
      simp [calls]
    | finalize =>
      cases depth with
      | zero => cases nested
      | succ depth =>
        obtain ⟨first, outer, length, rfl⟩ := ih nested
        exact ⟨done, first :: outer, congrArg Nat.succ length, rfl⟩

theorem exists_of_nested {calls : List SizeCall} (nested : SizeCall.Nested 0 calls) :
    ∃ regions : Regions, regions.calls = calls := by
  obtain ⟨regions, outer, none, rfl⟩ := exists_of_nested_behind nested
  obtain rfl := List.eq_nil_of_length_eq_zero none
  exact ⟨regions, (List.append_nil _).symm⟩

/-- The end of a region: nothing more comes, or a room is filled in. -/
def Ends : List SizeCall → Prop
  | [] => True
  | .finalize :: _ => True
  | _ => False

/-- Regions are known by their calls, up to the end of the region that they are in. -/
theorem calls_append_injective {regions others : Regions} {rest more : List SizeCall}
    (same : regions.calls ++ rest = others.calls ++ more) (ends : Ends rest) (stops : Ends more) :
    regions = others ∧ rest = more := by
  induction regions generalizing others rest more with
  | done =>
    cases others with
    | done => exact ⟨rfl, same⟩
    | raw data behind =>
      subst same
      cases ends
    | sized content behind =>
      subst same
      cases ends
  | raw data behind ih =>
    cases others with
    | done =>
      subst same
      cases stops
    | raw other later =>
      obtain ⟨head, tail⟩ := List.cons.inj same
      obtain ⟨rfl, rfl⟩ := ih tail ends stops
      cases head
      exact ⟨rfl, rfl⟩
    | sized content later => cases same
  | sized content behind inner outer =>
    cases others with
    | done =>
      subst same
      cases stops
    | raw data later => cases same
    | sized other later =>
      rw [calls_sized_append, calls_sized_append] at same
      obtain ⟨rfl, tail⟩ := inner (List.cons.inj same).2 trivial trivial
      obtain ⟨rfl, rfl⟩ := outer (List.cons.inj tail).2 ends stops
      exact ⟨rfl, rfl⟩

theorem calls_injective {regions others : Regions} (same : regions.calls = others.calls) :
    regions = others := by
  have whole : regions.calls ++ [] = others.calls ++ [] := by rw [same]
  exact (calls_append_injective whole trivial trivial).1

end Regions

/-! ## What the calls write -/

namespace BitWriter

theorem takes_put {writer : BitWriter} (aligned : writer.pending = []) (data : Bytes) :
    writer.Takes data (writer.put data) :=
  ⟨aligned, writer.contents_put data, rfl⟩

end BitWriter

/-- Where bytes were added, there was room for them. -/
theorem Write.Grows.room {ε α : Type} {step : EStateM ε BitWriter α} {data : Bytes}
    (grows : Write.Grows step (· = Bits.ofBytes data)) {writer behind : BitWriter} {value : α}
    (aligned : writer.pending = []) (tight : writer.buffer.size ≤ writer.buffer.capacity)
    (run : step writer = .ok value behind) :
    writer.buffer.size + data.length ≤ writer.buffer.capacity := by
  have start : writer.Tight := ⟨by rw [aligned]; exact Nat.zero_lt_succ 7, tight⟩
  obtain ⟨tight', _, rfl, extends_⟩ := grows _ _ _ start run
  have takes := takes_of_extends aligned extends_
  have fits := tight'.size
  rwa [takes.size, takes.capacity] at fits

namespace Regions

variable {writer : BitWriter}

/-- Each region has a size of 32 bits. -/
def Short (regions : Regions) : Prop :=
  ∀ size ∈ regions.sizes, size < 2 ^ 32

instance : DecidablePred Short :=
  fun regions => inferInstanceAs (Decidable (∀ size ∈ regions.sizes, size < 2 ^ 32))

theorem Short.sized {content rest : Regions} (short : (sized content rest).Short) :
    content.Short ∧ content.bytes.length ≤ Emit.maxPayload ∧ rest.Short := by
  simp only [Short, sizes, List.forall_mem_append, List.forall_mem_cons] at short
  exact ⟨short.1, Nat.le_pred_of_lt short.2.1, short.2.2⟩

/-- A room is filled in with the size of the region behind it. -/
theorem finalize_run {behind : BitWriter} {data : Bytes}
    (takes : (writer.put (List.replicate Emit.reservation 0)).Takes data behind)
    (short : data.length ≤ Emit.maxPayload) :
    ∃ last, Emit.finalizeSize ⟨writer.buffer.size⟩ behind = .ok data.length last ∧
      writer.Takes (Leb128.encode data.length ++ data) last := by
  have contents : behind.contents =
      writer.contents ++ (List.replicate Emit.reservation 0 ++ data) := by
    rw [takes.contents, BitWriter.contents_put, List.append_assoc]
  have start : writer.contents.length = writer.buffer.size := BoundedBuffer.length_contents _
  obtain ⟨last, run, aligned, capacity, written⟩ :=
    Emit.finalizeSize_run takes.aligned contents short
  rw [start] at run
  exact ⟨last, run, aligned, written, capacity.trans takes.capacity⟩

/-- Where there is room, the calls of the regions write their bytes, whatever calls follow. -/
theorem runAll_of_room {regions : Regions} (aligned : writer.pending = [])
    (short : regions.Short) (room : writer.buffer.size + regions.peak ≤ writer.buffer.capacity)
    (more : List SizeCall) (fields : List SizeField) :
    ∃ behind, writer.Takes regions.bytes behind ∧
      SizeCall.runAll (regions.calls ++ more) fields writer =
        (do return regions.sizes ++ (← SizeCall.runAll more fields)) behind := by
  induction regions generalizing writer more fields with
  | done =>
    refine ⟨writer, .refl aligned, ?_⟩
    simp [calls, sizes]
  | raw data rest ih =>
    rw [peak] at room
    have first : Emit.raw data writer = .ok () (writer.put data) :=
      Emit.emit_eq_ok.2 (Write.bytes_run aligned (by omega))
    have takes := BitWriter.takes_put aligned data
    obtain ⟨behind, later, run⟩ := ih takes.aligned short (by
      rw [takes.size, takes.capacity]
      omega) more fields
    refine ⟨behind, takes.trans later, ?_⟩
    rw [calls, List.cons_append, SizeCall.runAll, Step.bind_of_ok first, run]
    rfl
  | sized content rest inner outer =>
    rw [peak] at room
    obtain ⟨contentShort, few, restShort⟩ := short.sized
    have opened := Emit.reserveSize_run aligned (by omega)
    have reserved := BitWriter.takes_put aligned (List.replicate Emit.reservation 0)
    have size := reserved.size
    rw [List.length_replicate] at size
    -- the content is written behind the room, which is then filled in
    obtain ⟨filled, takes, first⟩ := inner reserved.aligned contentShort (by
      rw [size, reserved.capacity]
      omega) (.finalize :: (rest.calls ++ more)) (⟨writer.buffer.size⟩ :: fields)
    obtain ⟨closed, final, whole⟩ := finalize_run takes few
    obtain ⟨behind, later, second⟩ := outer whole.aligned restShort (by
      rw [whole.size, whole.capacity, List.length_append]
      omega) more fields
    refine ⟨behind, ?_, ?_⟩
    · have both := whole.trans later
      rwa [List.append_assoc] at both
    · rw [calls_sized_append, SizeCall.runAll, Step.bind_of_ok opened, first, SizeCall.runAll,
        bind_assoc, Step.bind_of_ok final, bind_assoc, Step.bind_of_eq second]
      simp [sizes]

theorem length_bytes_le_peak (regions : Regions) : regions.bytes.length ≤ regions.peak := by
  induction regions with
  | done => exact Nat.le_refl 0
  | raw data rest ih =>
    simp only [bytes, peak, List.length_append]
    omega
  | sized content rest _ ih =>
    simp only [bytes, peak, List.length_append]
    omega

/-- Where the calls of the regions have been written, there was room. -/
theorem room_of_runAll {regions : Regions} (aligned : writer.pending = [])
    (tight : writer.buffer.size ≤ writer.buffer.capacity) (short : regions.Short)
    {more : List SizeCall} {fields : List SizeField} {found : List Nat} {behind : BitWriter}
    (run : SizeCall.runAll (regions.calls ++ more) fields writer = .ok found behind) :
    writer.buffer.size + regions.peak ≤ writer.buffer.capacity := by
  induction regions generalizing writer behind more fields found with
  | done => exact tight
  | raw data rest ih =>
    rw [calls, List.cons_append, SizeCall.runAll] at run
    obtain ⟨_, between, first, run⟩ := Step.bind_eq_ok.1 run
    have fits := (Write.bytes_grows data).emit.room aligned tight first
    have taken := Emit.emit_eq_ok.2 (Write.bytes_run aligned fits)
    obtain ⟨-, rfl⟩ := EStateM.Result.ok.inj (first.symm.trans taken)
    have takes := BitWriter.takes_put aligned data
    have size := takes.size
    have capacity := takes.capacity
    have later := ih takes.aligned (by omega) short run
    rw [peak]
    omega
  | sized content rest inner outer =>
    obtain ⟨contentShort, few, restShort⟩ := short.sized
    rw [calls_sized_append, SizeCall.runAll] at run
    obtain ⟨field, between, opened, run⟩ := Step.bind_eq_ok.1 run
    have fits := Emit.reserveSize_grows.room aligned tight opened
    rw [List.length_replicate] at fits
    have reserved := Emit.reserveSize_run aligned fits
    obtain ⟨rfl, rfl⟩ := EStateM.Result.ok.inj (opened.symm.trans reserved)
    have takes := BitWriter.takes_put aligned (List.replicate Emit.reservation 0)
    have size := takes.size
    have capacity := takes.capacity
    rw [List.length_replicate] at size
    have room := inner takes.aligned (by omega) contentShort run
    -- the content was written, and so its size was filled in
    obtain ⟨filled, written, first⟩ := runAll_of_room takes.aligned contentShort room
      (.finalize :: (rest.calls ++ more)) (⟨writer.buffer.size⟩ :: fields)
    obtain ⟨closed, final, whole⟩ := finalize_run written few
    have code := Emit.length_size_le few
    have total := whole.size
    have kept := whole.capacity
    have most := content.length_bytes_le_peak
    rw [first, SizeCall.runAll, bind_assoc, Step.bind_of_ok final, bind_assoc] at run
    obtain ⟨_, _, second, -⟩ := Step.bind_eq_ok.1 run
    rw [List.length_append] at total
    have later := outer whole.aligned (by omega) restShort second
    rw [peak]
    omega

end Regions

/-- Well nested calls are those of some regions, and between two bytes they are taken exactly where
    the regions fit with all the room that is left for their sizes. What they add is the bytes of
    the regions, each behind the shortest code of its size, and the sizes that are filled in are
    those of the regions. -/
theorem SizeCall.runAll_nested {calls : List SizeCall} (nested : Nested 0 calls) :
    ∃ regions : Regions, regions.calls = calls ∧
      ∀ writer : BitWriter, writer.pending = [] → writer.buffer.size ≤ writer.buffer.capacity →
        regions.Short →
        ((∃ sizes behind, runAll calls [] writer = .ok sizes behind) ↔
          writer.buffer.size + regions.peak ≤ writer.buffer.capacity) ∧
        (∀ sizes behind, runAll calls [] writer = .ok sizes behind →
          sizes = regions.sizes ∧ behind.pending = [] ∧
            behind.contents = writer.contents ++ regions.bytes) ∧
        ∀ size ∈ regions.sizes, Leb128.Shortest size (Leb128.encode size) := by
  obtain ⟨regions, rfl⟩ := Regions.exists_of_nested nested
  refine ⟨regions, rfl, fun writer aligned tight short => ?_⟩
  have none := List.append_nil regions.calls
  have fits : ∀ {sizes behind}, runAll regions.calls [] writer = .ok sizes behind →
      writer.buffer.size + regions.peak ≤ writer.buffer.capacity := by
    intro sizes behind run
    rw [← none] at run
    exact Regions.room_of_runAll aligned tight short run
  have written (room : writer.buffer.size + regions.peak ≤ writer.buffer.capacity) :
      ∃ behind, writer.Takes regions.bytes behind ∧
        runAll regions.calls [] writer = .ok regions.sizes behind := by
    obtain ⟨behind, takes, run⟩ := Regions.runAll_of_room aligned short room [] []
    rw [none] at run
    refine ⟨behind, takes, run.trans ?_⟩
    simp [runAll]
  refine ⟨⟨fun ⟨_, _, run⟩ => fits run, fun room => ?_⟩, fun sizes behind run => ?_,
    fun size member => ?_⟩
  · obtain ⟨behind, -, run⟩ := written room
    exact ⟨_, behind, run⟩
  · obtain ⟨_, takes, again⟩ := written (fits run)
    obtain ⟨rfl, rfl⟩ := EStateM.Result.ok.inj (run.symm.trans again)
    exact ⟨rfl, takes.aligned, takes.contents⟩
  · exact Leb128.encode_shortest (Nat.le_pred_of_lt (short size member))

/-- A region with a size of two bytes in another, behind a byte, with no more room than it takes. -/
theorem SizeCall.runAll_nested_two_bytes :
    ∃ calls : List SizeCall,
      calls = [.reserve, .reserve, .raw (List.replicate 130 7), .finalize, .raw [8], .finalize] ∧
      Nested 0 calls ∧ ∃ behind, runAll calls [] (.onto ⟨147, #[9]⟩) = .ok [130, 133] behind ∧
        behind.pending = [] ∧
        behind.contents = [9, 0x85, 1, 0x82, 1] ++ List.replicate 130 7 ++ [8] := by
  have nested : Nested 0 [.reserve, .reserve, .raw (List.replicate 130 7), .finalize, .raw [8],
      .finalize] := rfl
  obtain ⟨regions, same, known⟩ := runAll_nested nested
  obtain rfl : regions =
      .sized (.sized (.raw (List.replicate 130 7) .done) (.raw [8] .done)) .done :=
    Regions.calls_injective same
  obtain ⟨taken, written, -⟩ := known (.onto ⟨147, #[9]⟩) rfl (by decide) (by decide +kernel)
  obtain ⟨sizes, behind, run⟩ := taken.2 (by decide +kernel)
  obtain ⟨filled, aligned, contents⟩ := written _ _ run
  obtain rfl : sizes = [130, 133] := filled.trans (by decide +kernel)
  exact ⟨_, rfl, nested, behind, run, aligned, contents.trans (by decide +kernel)⟩

end Av1Tiling
