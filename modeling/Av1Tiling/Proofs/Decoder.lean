import Av1Tiling.Decoder
import Av1Tiling.Proofs.Frame.Safety

/-!
# Decoders without faults

A decoder is handed whatever bytes there are, in any order, and goes on behind what it could not
read. All states that it gets into are in range (`DecoderState.InRange`): by that nothing it
computes ever leaves its range, and a frame whose tiles are still to come always has a layout.
-/

namespace Av1Tiling

/-- What later headers and tiles go by is in range. -/
structure DecoderState.InRange (state : DecoderState) : Prop where
  sequence : ∀ sequence, state.sequence = some sequence → sequence.InRange
  slots : state.slots.InRange
  pending : ∀ frame, state.pending = some frame → frame.InRange ∧ frame.showExisting = false

/-- The states that a decoder gets into by units and single OBUs, whether they can be read or
    not. It goes on behind an error. -/
inductive DecoderState.Reachable : DecoderState → Prop
  | empty : Reachable .empty
  | parsedUnit {state behind : DecoderState} {unit : Bytes} {parsed : List ParsedObu}
      (reached : Reachable state) (run : Decode.parseUnit unit state = .ok parsed behind) :
      Reachable behind
  | failedUnit {state behind : DecoderState} {unit : Bytes} {error : ObuError}
      (reached : Reachable state)
      (run : Decode.parseUnit unit state = .error (.raised error) behind) :
      Reachable behind
  | parsedObu {state behind : DecoderState} {obu : Obu} {content : ObuContent}
      (reached : Reachable state) (run : Decode.interpret obu state = .ok content behind) :
      Reachable behind
  | failedObu {state behind : DecoderState} {obu : Obu} {error : ObuError}
      (reached : Reachable state)
      (run : Decode.interpret obu state = .error (.raised error) behind) :
      Reachable behind

theorem DecoderState.empty_inRange : empty.InRange :=
  ⟨by rintro _ ⟨⟩, RefSlots.empty_inRange, by rintro _ ⟨⟩⟩

/-- A frame with tiles to come has a layout. -/
theorem DecoderState.InRange.layout {state : DecoderState} (inRange : state.InRange)
    {frame : FrameHeader} (found : state.pending = some frame) :
    ∃ layout, frame.layout = some layout ∧ layout.Expressible :=
  (inRange.pending frame found).1.layout (inRange.pending frame found).2

namespace Decode

variable {α : Type} {header : ObuHeader}

/-- The step leaves a state in range behind. It yields a value with `yields`, or fails and not for
    a fault, if there are bits for the layers of the OBU. -/
abbrev Safe (header : ObuHeader) (step : Decode α) (yields : α → Prop) : Prop :=
  Step.Ensures DecoderState.InRange (fun cause => header.LayersFit → ¬ cause.IsFault) step yields

theorem get_safe : Safe header get DecoderState.InRange :=
  .get

theorem setPending_safe {pending : Option FrameHeader}
    (known : ∀ frame, pending = some frame → frame.InRange ∧ frame.showExisting = false) :
    Safe header (setPending pending) fun _ => True :=
  .modify fun _ inRange => ⟨inRange.sequence, inRange.slots, known⟩

theorem complete_safe {frame : FrameHeader} (frameInRange : frame.InRange) :
    Safe header (complete frame) fun _ => True :=
  .modify fun _ inRange =>
    ⟨inRange.sequence, frameInRange.updateSlots inRange.slots, by rintro _ ⟨⟩⟩

theorem sequenceHeader_safe (obu : Obu) : Safe header (sequenceHeader obu) fun _ => True := by
  intro state inRange
  have read : Read.Safe (.ofBytes obu.payload) (SequenceHeader.read obu.header)
    SequenceHeader.InRange := SequenceHeader.read_safe obu.header
  unfold sequenceHeader SequenceHeader.parse Read.runOn EStateM.run
  cases run : SequenceHeader.read obu.header (.ofBytes obu.payload) with
  | ok sequence behind =>
    have known := (read.of_ok (.refl _) run).1
    refine ⟨trivial, ?_, inRange.slots, inRange.pending⟩
    rintro _ ⟨⟩
    exact known
  | error cause behind =>
    have noFault := (read.of_error (.refl _) run).1
    refine ⟨fun _ => ?_, inRange⟩
    rwa [Failure.isFault_map]

theorem frameHeader_safe (obu : Obu) :
    Safe obu.header (frameHeader obu) FrameHeader.InRange := by
  intro state inRange
  unfold frameHeader
  cases present : state.sequence with
  | none =>
    exact ⟨fun _ => Failure.not_isFault_raised _, inRange⟩
  | some sequence =>
    have known := FrameHeader.parse_ensures (inRange.sequence sequence present) obu.header
      obu.payload
    have kept := inRange.sequence
    rw [present] at kept
    cases run : FrameHeader.parse sequence obu.header obu.payload state.slots with
    | ok frame slots =>
      have found := known.of_ok inRange.slots run
      simp only [run]
      exact ⟨found.1, kept, found.2, inRange.pending⟩
    | error cause slots =>
      have found := known.of_error inRange.slots run
      simp only [run]
      exact ⟨found.1, kept, found.2, inRange.pending⟩

theorem startFrame_safe (obu : Obu) : Safe obu.header (startFrame obu) fun _ => True := by
  refine (frameHeader_safe obu).bind fun frame frameInRange => ?_
  by_cases shown : frame.showExisting = true
  · simp only [if_pos shown]
    refine Step.Ensures.bind (.modify fun _ inRange => ?_) fun _ _ => .pure trivial
    exact ⟨inRange.sequence, frameInRange.updateSlots inRange.slots, inRange.pending⟩
  · simp only [if_neg shown]
    refine (setPending_safe ?_).bind fun _ _ => .pure trivial
    rintro _ ⟨⟩
    exact ⟨frameInRange, by simpa using shown⟩

theorem tileGroup_safe (obu : Obu) : Safe obu.header (tileGroup obu) fun _ => True := by
  refine get_safe.bind fun state inRange => ?_
  cases found : state.pending with
  | none => exact .throw fun _ => Failure.not_isFault_raised _
  | some frame =>
    rcases inRange.layout found with ⟨layout, cut, expressible⟩
    simp only [cut]
    have parsed : Safe obu.header (liftM (TileGroup.parse obu.payload layout)) fun _ => True := by
      intro state inRange
      cases run : TileGroup.parse obu.payload layout with
      | ok group => exact ⟨trivial, inRange⟩
      | error cause =>
        refine ⟨fun _ => ?_, inRange⟩
        rw [Failure.isFault_map]
        exact TileGroup.parse_error expressible run
    refine parsed.bind fun group _ => ?_
    by_cases ends : group.endsFrame layout = true
    · simp only [if_pos ends]
      exact (complete_safe (inRange.pending frame found).1).bind fun _ _ => .pure trivial
    · simp only [if_neg ends]
      exact .pure trivial

/-- What one OBU does to a decoder. -/
theorem interpret_safe (obu : Obu) : Safe obu.header (interpret obu) fun _ => True := by
  unfold interpret
  cases obu.header.type with
  | temporalDelimiter => exact (setPending_safe (by rintro _ ⟨⟩)).bind fun _ _ => .pure trivial
  | sequenceHeader => exact (sequenceHeader_safe obu).bind fun _ _ => .pure trivial
  | frameHeader =>
    refine get_safe.bind fun state _ => .ite (fun _ => .pure trivial) fun _ => ?_
    exact (startFrame_safe obu).bind fun _ _ => .pure trivial
  | redundantFrameHeader =>
    refine get_safe.bind fun state _ => .ite (fun _ => .pure trivial) fun _ => ?_
    exact (startFrame_safe obu).bind fun _ _ => .pure trivial
  | tileGroup => exact (tileGroup_safe obu).bind fun _ _ => .pure trivial
  | frame =>
    refine (frameHeader_safe obu).bind fun frame frameInRange => ?_
    exact (complete_safe frameInRange).bind fun _ _ => .pure trivial
  | metadata => exact .pure trivial
  | tileList => exact .pure trivial
  | padding => exact .pure trivial
  | reserved code => exact .pure trivial

/-- What a whole unit does to a decoder. The OBUs that are read from a unit have bits for their
    layers. -/
theorem parseUnit_safe (unit : Bytes) :
    Step.Ensures DecoderState.InRange (¬ Failure.IsFault ·) (parseUnit unit) fun _ => True := by
  have sound := (Obu.readAll_ends unit).2
  have each : Step.Ensures DecoderState.InRange (¬ Failure.IsFault ·) (parseUnit unit)
      fun parsed => ∀ item ∈ parsed, True := by
    refine .mapM fun item member => ?_
    cases item with
    | error cause => exact .throw_bind (sound _ member)
    | ok obu =>
      have within : obu.Within unit := sound _ member
      have layers := within.header.layersFit
      have interpreted : Step.Ensures DecoderState.InRange (¬ Failure.IsFault ·) (interpret obu)
          fun _ => True := (interpret_safe obu).mono_fails fun _ noFault => noFault layers
      exact interpreted.bind fun _ _ => .pure trivial
  exact each.mono fun _ _ => trivial

end Decode

theorem DecoderState.Reachable.inRange {state : DecoderState} (reached : state.Reachable) :
    state.InRange := by
  induction reached with
  | empty => exact empty_inRange
  | parsedUnit reached run ih => exact ((Decode.parseUnit_safe _).of_ok ih run).2
  | failedUnit reached run ih => exact ((Decode.parseUnit_safe _).of_error ih run).2
  | parsedObu reached run ih => exact ((Decode.interpret_safe _).of_ok ih run).2
  | failedObu reached run ih => exact ((Decode.interpret_safe _).of_error ih run).2

/-- Whatever a decoder was handed before, the next unit is read to its end, every frame whose tiles
    it waits for has a layout, and what is wrong with the unit is never a value out of range. -/
theorem Decode.parseUnit_never_faults {state : DecoderState} (reached : state.Reachable)
    (unit : Bytes) :
    (∀ frame, state.pending = some frame → frame.layout.isSome = true) ∧
      (Obu.readAll unit).2.remaining = 0 ∧
      ∀ cause behind, parseUnit unit state = .error cause behind → ¬ cause.IsFault := by
  refine ⟨?_, (Obu.readAll_ends unit).1, ?_⟩
  · intro frame found
    rcases reached.inRange.layout found with ⟨layout, cut, -⟩
    rw [cut]
    rfl
  · intro cause behind run
    exact ((parseUnit_safe unit).of_error reached.inRange run).1

/-- A decoder that waits for the tiles of a frame and is handed one with a one in its padding. -/
theorem Decode.parseUnit_never_faults_in_tiles :
    ∃ state : DecoderState, state.Reachable ∧ state.pending.isSome = true ∧
      (∀ frame, state.pending = some frame → frame.layout.isSome = true) ∧
      ∀ cause behind, parseUnit [0x22, 0x02, 0x01, 0xFF] state = .error cause behind →
        ¬ cause.IsFault := by
  have facts : EStateM.Result.rec (motive := fun _ => Bool) (fun _ state => state.pending.isSome)
      (fun _ _ => false)
      (parseUnit [0x0A, 0x06, 0x18, 0x19, 0xBF, 0xFF, 0x00, 0x02, 0x1A, 0x01, 0x12] .empty) =
        true := by decide +kernel
  cases run : parseUnit [0x0A, 0x06, 0x18, 0x19, 0xBF, 0xFF, 0x00, 0x02, 0x1A, 0x01, 0x12]
      .empty with
  | error cause behind =>
    rw [run] at facts
    cases facts
  | ok parsed state =>
    rw [run] at facts
    have reached : state.Reachable := .parsedUnit .empty run
    have known := parseUnit_never_faults reached [0x22, 0x02, 0x01, 0xFF]
    exact ⟨state, reached, facts, known.1, known.2.2⟩

end Av1Tiling
