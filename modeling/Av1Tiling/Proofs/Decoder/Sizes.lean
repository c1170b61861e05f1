import Av1Tiling.Proofs.Decoder.Run
import Av1Tiling.Proofs.Frame.Sizes

/-!
# Decoders without empty frames

Sizes go round through the slots of a decoder: a frame may have the size of a reference, and its own
slots hold that size in turn. As long as every frame with the size of a reference has the size of one
whose slot holds a frame, no frame is empty. A decoder does not see to that itself.
-/

namespace Av1Tiling

/-- Neither the slots nor the frame whose tiles are still to come are empty. -/
structure DecoderState.Positive (state : DecoderState) : Prop where
  slots : state.slots.Positive
  pending : ∀ frame, state.pending = some frame →
    frame.showExisting = false → frame.size.Positive

theorem DecoderState.empty_positive : empty.Positive :=
  ⟨RefSlots.empty_positive, by rintro _ ⟨⟩⟩

namespace Decode

variable {events : List Event} {state behind : DecoderState} {obu : Obu}

/-- The OBU holds the header of a frame, with or without its tiles. -/
def Event.Accepts (event : Event) (frame : FrameHeader) : Prop :=
  event.answer = .ok (.frameHeader frame) ∨ event.answer = .ok (.frame frame)

/-- A frame header in the OBU that takes the size of a reference takes that of one whose slot holds
    a frame when the header has been read. -/
def Event.SizedByValid (event : Event) : Prop :=
  ∀ frame sequence kept, event.Accepts frame → event.before.sequence = some sequence →
    FrameHeader.parse sequence event.obu.header event.obu.payload event.before.slots =
      .ok frame kept →
    frame.SizedByValid kept

/-- A frame that brings tiles, and is not empty. -/
def HasTiles (frame : FrameHeader) : Prop :=
  frame.size.Positive ∧ ∃ layout, frame.layout = some layout ∧ 1 ≤ layout.tileCount

/-- What one header brings. -/
theorem positive_of_parsed {sequence : SequenceHeader} {frame : FrameHeader} {kept : RefSlots}
    {header : ObuHeader} {payload : Bytes} (inRange : state.InRange) (positive : state.Positive)
    (present : state.sequence = some sequence)
    (parsed : FrameHeader.parse sequence header payload state.slots = .ok frame kept)
    (sized : frame.SizedByValid kept) :
    kept.Positive ∧ (frame.showExisting = false → HasTiles frame) := by
  have legal := inRange.sequence sequence present
  obtain ⟨scaled, slots⟩ :=
    (FrameHeader.parse_scaled legal header payload).of_ok positive.slots parsed
  obtain ⟨within, -⟩ := (FrameHeader.parse_ensures legal header payload).of_ok inRange.slots parsed
  refine ⟨slots, fun own => ?_⟩
  have size := (scaled own).positive slots own sized
  exact ⟨size, (FrameHeader.parse_cut parsed).tile within own size⟩

/-- What one OBU does to a decoder without empty frames. -/
theorem Outcome.positive {content : ObuContent} (outcome : Outcome state obu content behind)
    (inRange : state.InRange) (positive : state.Positive)
    (sized : Event.SizedByValid ⟨state, obu, .ok content⟩) :
    behind.Positive ∧ ∀ frame, content = .frameHeader frame ∨ content = .frame frame →
      frame.showExisting = false → HasTiles frame := by
  cases outcome with
  | temporalDelimiter => exact ⟨⟨positive.slots, by rintro _ ⟨⟩⟩, by rintro _ (⟨⟨⟩⟩ | ⟨⟨⟩⟩)⟩
  | sequenceHeader => exact ⟨⟨positive.slots, positive.pending⟩, by rintro _ (⟨⟨⟩⟩ | ⟨⟨⟩⟩)⟩
  | frameHeaderCopy => exact ⟨positive, by rintro _ (⟨⟨⟩⟩ | ⟨⟨⟩⟩)⟩
  | existingFrame _ idle present parsed shown =>
    obtain ⟨slots, tiles⟩ := positive_of_parsed inRange positive present parsed
      (sized _ _ _ (.inl rfl) present parsed)
    refine ⟨⟨FrameHeader.updateSlots_positive slots fun own => (tiles own).1, ?_⟩, ?_⟩
    · intro frame waiting
      rw [idle] at waiting
      cases waiting
    · rintro _ (⟨⟨⟩⟩ | ⟨⟨⟩⟩)
      exact tiles
  | frameHeader _ idle present parsed own =>
    obtain ⟨slots, tiles⟩ := positive_of_parsed inRange positive present parsed
      (sized _ _ _ (.inl rfl) present parsed)
    refine ⟨⟨slots, ?_⟩, ?_⟩
    · rintro _ ⟨⟩
      exact fun own => (tiles own).1
    · rintro _ (⟨⟨⟩⟩ | ⟨⟨⟩⟩)
      exact tiles
  | tileGroup => exact ⟨positive, by rintro _ (⟨⟨⟩⟩ | ⟨⟨⟩⟩)⟩
  | lastTileGroup _ waiting =>
    refine ⟨⟨?_, by rintro _ ⟨⟩⟩, by rintro _ (⟨⟨⟩⟩ | ⟨⟨⟩⟩)⟩
    exact FrameHeader.updateSlots_positive positive.slots (positive.pending _ waiting)
  | frame _ present parsed =>
    obtain ⟨slots, tiles⟩ := positive_of_parsed inRange positive present parsed
      (sized _ _ _ (.inr rfl) present parsed)
    refine ⟨⟨FrameHeader.updateSlots_positive slots fun own => (tiles own).1, by rintro _ ⟨⟩⟩, ?_⟩
    rintro _ (⟨⟨⟩⟩ | ⟨⟨⟩⟩)
    exact tiles
  | other => exact ⟨positive, by rintro _ (⟨⟨⟩⟩ | ⟨⟨⟩⟩)⟩

/-- An OBU that cannot be interpreted brings no empty frame. -/
theorem LeftSlots.positive (left : LeftSlots state obu behind) (inRange : state.InRange)
    (positive : state.Positive) : behind.Positive := by
  obtain ⟨sequence, cause, slots, present, parsed, rfl⟩ := left
  have legal := inRange.sequence sequence present
  have kept := (FrameHeader.parse_scaled legal obu.header obu.payload).of_error positive.slots parsed
  exact ⟨kept.2, positive.pending⟩

/-- A decoder that has not been handed a frame with the size of an empty reference has no empty
    frame, and has accepted none. -/
theorem Ran.without_empty_frames (ran : Ran events state)
    (sized : ∀ event ∈ events, event.SizedByValid) :
    (∀ event ∈ events, ∀ frame, event.Accepts frame → frame.showExisting = false →
      1 ≤ frame.size.upscaledWidth ∧ 1 ≤ frame.size.frameWidth ∧ 1 ≤ frame.size.frameHeight ∧
        ∃ layout, frame.layout = some layout ∧ 1 ≤ layout.tileCount) ∧
      ∀ slot ∈ state.slots, slot.valid = true →
        1 ≤ slot.size.upscaledWidth ∧ 1 ≤ slot.size.frameWidth ∧ 1 ≤ slot.size.frameHeight ∧
          1 ≤ slot.size.renderWidth ∧ 1 ≤ slot.size.renderHeight := by
  have known : state.Positive ∧ ∀ event ∈ events, ∀ frame, event.Accepts frame →
      frame.showExisting = false → HasTiles frame := by
    induction ran with
    | opened => exact ⟨DecoderState.empty_positive, List.forall_mem_nil _⟩
    | @obu events state obu ran _ ih =>
      obtain ⟨own, others⟩ := List.forall_mem_cons.1 sized
      obtain ⟨positive, earlier⟩ := ih others
      rw [List.forall_mem_cons]
      rcases answer_cases obu state with
        ⟨content, behind, run, outcome⟩ | ⟨cause, behind, run, left⟩ <;> rw [run] at own ⊢
      · obtain ⟨kept, tiles⟩ := outcome.positive ran.reachable.inRange positive own
        refine ⟨kept, fun frame accepts => ?_, earlier⟩
        exact tiles frame (accepts.imp Except.ok.inj Except.ok.inj)
      · refine ⟨?_, ?_, earlier⟩
        · rcases left with rfl | left
          · exact positive
          · exact left.positive ran.reachable.inRange positive
        · rintro frame (⟨⟨⟩⟩ | ⟨⟨⟩⟩)
  obtain ⟨positive, accepted⟩ := known
  refine ⟨fun event member frame accepts own => ?_, fun slot member valid => ?_⟩
  · obtain ⟨size, tiles⟩ := accepted event member frame accepts own
    exact ⟨size.upscaledWidth, size.frameWidth, size.frameHeight, tiles⟩
  · have size := positive.slots slot member valid
    exact ⟨size.upscaledWidth, size.frameWidth, size.frameHeight, size.renderWidth,
      size.renderHeight⟩

/-! ### A frame with the size of a reference -/

/-- A sequence, a key frame of it for all slots, and a frame with the size of the first slot. -/
def sizedByKeyFrame : List Obu :=
  [bare .sequenceHeader [0x00, 0x00, 0x00, 0x03, 0xBB, 0xFB, 0xF8, 0x00, 0x00, 0x10],
    bare .frame [0x10, 0x90], bare .frame [0x33, 0xFF, 0xC0, 0x00, 0x01, 0x49]]

/-- The check of an OBU that decoders leave out. -/
def Event.checkSize (event : Event) : Bool :=
  match event.answer, event.before.sequence with
  | .ok (.frameHeader frame), some sequence | .ok (.frame frame), some sequence =>
    match FrameHeader.parse sequence event.obu.header event.obu.payload event.before.slots with
    | .ok _ kept => decide (frame.SizedByValid kept)
    | .error _ _ => true
  | _, _ => true

theorem Event.sizedByValid_of_check {event : Event} (checked : event.checkSize = true) :
    event.SizedByValid := by
  rintro frame sequence kept (answered | answered) present parsed <;>
    · simp only [checkSize, answered, present, parsed, decide_eq_true_eq] at checked
      exact checked

/-- Once a key frame has come, a frame may have its size. -/
theorem Ran.without_empty_frames_behind_key_frame : ∃ events state, Ran events state ∧
    (∀ event ∈ events, event.SizedByValid) ∧ events.length = 3 ∧
    (∀ event ∈ events, ∀ frame, event.Accepts frame → frame.showExisting = false →
      1 ≤ frame.size.upscaledWidth ∧ 1 ≤ frame.size.frameWidth ∧ 1 ≤ frame.size.frameHeight ∧
        ∃ layout, frame.layout = some layout ∧ 1 ≤ layout.tileCount) ∧
    ∀ slot ∈ state.slots, slot.valid = true →
      1 ≤ slot.size.upscaledWidth ∧ 1 ≤ slot.size.frameWidth ∧ 1 ≤ slot.size.frameHeight ∧
        1 ≤ slot.size.renderWidth ∧ 1 ≤ slot.size.renderHeight := by
  have ran : Ran (runThrough sizedByKeyFrame).1 (runThrough sizedByKeyFrame).2 :=
    ran_runThrough (by decide +kernel)
  have checked : ∀ event ∈ (runThrough sizedByKeyFrame).1, event.checkSize = true := by
    decide +kernel
  have sized := fun event member => Event.sizedByValid_of_check (checked event member)
  exact ⟨_, _, ran, sized, rfl, ran.without_empty_frames sized⟩

/-- The same without the key frame. -/
def sizedByNothing : List Obu :=
  [bare .sequenceHeader [0x00, 0x00, 0x00, 0x03, 0xBB, 0xFB, 0xF8, 0x00, 0x00, 0x10],
    bare .frame [0x33, 0xFF, 0xC0, 0x00, 0x01, 0x4C]]

/-- Without the key frame, the frame with its size is accepted all the same, and is empty. -/
theorem not_without_empty_frames : ¬∀ (events : List Event) (state : DecoderState),
    Ran events state →
    (∀ event ∈ events, ∀ frame, event.Accepts frame → frame.showExisting = false →
      1 ≤ frame.size.upscaledWidth ∧ 1 ≤ frame.size.frameWidth ∧ 1 ≤ frame.size.frameHeight ∧
        ∃ layout, frame.layout = some layout ∧ 1 ≤ layout.tileCount) ∧
      ∀ slot ∈ state.slots, slot.valid = true →
        1 ≤ slot.size.upscaledWidth ∧ 1 ≤ slot.size.frameWidth ∧ 1 ≤ slot.size.frameHeight ∧
          1 ≤ slot.size.renderWidth ∧ 1 ≤ slot.size.renderHeight := by
  intro claim
  have ran : Ran (runThrough sizedByNothing).1 (runThrough sizedByNothing).2 :=
    ran_runThrough (by decide +kernel)
  have empty : ∃ slot ∈ (runThrough sizedByNothing).2.slots.toList,
      slot.valid = true ∧ slot.size.upscaledWidth = 0 := by
    decide +kernel
  obtain ⟨slot, member, valid, none⟩ := empty
  have known := (claim _ _ ran).2 slot (Vector.mem_toList_iff.1 member) valid
  rw [none] at known
  exact absurd known.1 (Nat.not_succ_le_zero 0)

end Decode

end Av1Tiling
