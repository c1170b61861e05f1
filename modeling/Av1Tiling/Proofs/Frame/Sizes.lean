import Av1Tiling.Proofs.Frame.Grid

/-!
# Frames that are not empty

A size that is coded in a header has no empty side, whatever super-resolution makes of its width. A
size that is taken from a reference is as empty as that of the slot, which need not hold a frame
(`FrameHeader.SizedByValid` asks for one that does). Slots that may be used hold no empty frame, and
reading a header leaves such slots behind.
-/

namespace Av1Tiling

/-- No side of the size is empty, nor of the size at which the frame is shown. -/
structure FrameSize.Positive (size : FrameSize) : Prop where
  upscaledWidth : 1 ≤ size.upscaledWidth
  frameWidth : 1 ≤ size.frameWidth
  frameHeight : 1 ≤ size.frameHeight
  renderWidth : 1 ≤ size.renderWidth
  renderHeight : 1 ≤ size.renderHeight

/-- A frame that takes its size from a reference has the size of one whose slot holds a frame, apart
    from super-resolution. -/
def FrameHeader.SizedByValid (frame : FrameHeader) (slots : RefSlots) : Prop :=
  frame.showExisting = false → frame.renderSpan = none →
    ∃ slot ∈ frame.references.toList, (slots.get slot).valid = true ∧
      frame.size = { (slots.get slot).size with
        frameWidth := frame.size.frameWidth, superresDenom := frame.size.superresDenom }

/-- It can be checked where a frame has its size from. -/
instance {frame : FrameHeader} {slots : RefSlots} : Decidable (frame.SizedByValid slots) :=
  inferInstanceAs (Decidable (_ → _ → ∃ slot ∈ frame.references.toList, _))

/-- A coded size is not empty. One that is taken from a reference has not lost its width by
    super-resolution. -/
def CodedSize.Scaled (coded : CodedSize) : Prop :=
  coded.size.Positive ∨
    coded.renderSpan = none ∧ (1 ≤ coded.size.upscaledWidth → 1 ≤ coded.size.frameWidth)

namespace RefSlots

variable {slots : RefSlots}

/-- A slot that may be used holds a frame that is not empty. -/
def Positive (slots : RefSlots) : Prop :=
  ∀ slot ∈ slots, slot.valid = true → slot.size.Positive

theorem empty_positive : empty.Positive := by
  intro slot member valid
  rw [empty, Vector.mem_replicate] at member
  rw [member.2] at valid
  cases valid

theorem Positive.slot (positive : slots.Positive) {i : Fin 8} (valid : (slots.get i).valid = true) :
    (slots.get i).size.Positive :=
  positive _ (Vector.getElem_mem i.isLt) valid

theorem invalidate_positive (slots : RefSlots) : slots.invalidate.Positive := by
  intro slot member valid
  rcases Vector.mem_map.1 member with ⟨old, -, rfl⟩
  cases valid

theorem Positive.refresh (positive : slots.Positive) (flags : Nat) {slot : RefSlot}
    (fresh : slot.valid = true → slot.size.Positive) : (slots.refresh flags slot).Positive := by
  intro found member
  rcases Vector.mem_mapIdx.1 member with ⟨i, bound, rfl⟩
  split
  · exact fresh
  · exact positive _ (Vector.getElem_mem bound)

/-- Slots that expire only lose their frames. -/
theorem expire_positive {ids : FrameIds} (inRange : ids.InRange) {current : Nat}
    (known : current < 2 ^ ids.idLength) (positive : slots.Positive) :
    Checked.Gives (expire ids current slots) Positive := by
  refine .mapM_vector fun slot member => ?_
  refine (inWindow_gives inRange known slot.frameId).bind fun kept _ => .pure fun valid => ?_
  exact positive slot member (Bool.and_eq_true_iff.1 valid).1

end RefSlots

/-- A frame with the size of a slot that holds one is not empty. -/
theorem CodedSize.Scaled.positive {frame : FrameHeader} {slots : RefSlots}
    (scaled : frame.toCodedSize.Scaled) (positive : slots.Positive)
    (own : frame.showExisting = false) (sized : frame.SizedByValid slots) :
    frame.size.Positive := by
  rcases scaled with known | ⟨taken, width⟩
  · exact known
  · obtain ⟨slot, -, valid, same⟩ := sized own taken
    have known := positive.slot valid
    have upscaled : 1 ≤ frame.size.upscaledWidth := by
      rw [same]
      exact known.upscaledWidth
    rw [same]
    exact ⟨known.upscaledWidth, width upscaled, known.frameHeight, known.renderWidth,
      known.renderHeight⟩

/-- A complete frame that is not empty leaves such slots behind. -/
theorem FrameHeader.updateSlots_positive {frame : FrameHeader} {slots : RefSlots}
    (positive : slots.Positive) (size : frame.showExisting = false → frame.size.Positive) :
    (frame.updateSlots slots).Positive := by
  unfold FrameHeader.updateSlots
  by_cases shown : frame.showExisting = true
  · rw [if_pos shown]
    split
    · exact positive.refresh _ (positive.slot (i := frame.shownSlot))
    · exact positive
  · rw [if_neg shown]
    exact positive.refresh _ fun _ => size (Bool.not_eq_true _ ▸ shown)

namespace ReadFrame

variable {α : Type} {sequence : SequenceHeader}

/-! ## Sizes -/

/-- Super-resolution leaves something of a width. -/
theorem superres_positive {start : BitReader} (sequence : SequenceHeader) (upscaledWidth : Nat) :
    Step.Ensures start.Reaches (fun _ => True) (superres sequence upscaledWidth) fun found =>
      1 ≤ upscaledWidth → 1 ≤ found.2 := by
  refine ((superresDenom_safe sequence).mono_fails fun _ _ => trivial).bind fun denom known => ?_
  have width : Step.Ensures start.Reaches (fun _ => True)
      (liftM (FrameSize.downscaledWidth upscaledWidth denom) : Read Nat) fun width =>
        1 ≤ upscaledWidth → 1 ≤ width := by
    intro reader reached
    cases run : FrameSize.downscaledWidth upscaledWidth denom with
    | error cause => exact ⟨trivial, reached⟩
    | ok width =>
      refine ⟨fun some => ?_, reached⟩
      obtain ⟨total, first, second⟩ := Checked.bind_eq_ok.1 run
      obtain ⟨-, rfl⟩ := Checked.word_eq_ok_iff.1 first
      rw [Checked.div_eq_ok (by omega)] at second
      cases second
      rw [FrameSize.superresNum]
      exact Nat.div_pos (by omega) (by omega)
  exact width.bind fun width some => .pure some

theorem renderSize_positive {start : BitReader} {width height : Nat} (wide : 1 ≤ width)
    (high : 1 ≤ height) :
    Step.Ensures start.Reaches (fun _ => True) (renderSize width height) fun found =>
      1 ≤ found.1 ∧ 1 ≤ found.2 := by
  have bits (count : Nat) : Step.Ensures start.Reaches (fun _ => True) (Read.bits count) fun _ =>
      True := ((Read.bits_safe count).mono_fails fun _ _ => trivial).mono fun _ _ => trivial
  refine (Read.bit_safe.mono_fails fun _ _ => trivial).bind fun _ _ => .ite (fun _ => ?_) fun _ =>
    .pure ⟨wide, high⟩
  refine (bits 16).bind fun renderWidth _ => (bits 16).bind fun renderHeight _ => .pure ?_
  exact ⟨Nat.le_add_left .., Nat.le_add_left ..⟩

/-- A size that is coded is not empty. -/
theorem codedSize_positive {start : BitReader} (inRange : sequence.InRange) (sizeOverride : Bool) :
    Step.Ensures start.Reaches (fun _ => True) (codedSize sequence sizeOverride) fun coded =>
      coded.size.Positive := by
  refine ((dimensions_safe inRange sizeOverride).mono_fails fun _ _ => trivial).bind
    fun found sides => ?_
  obtain ⟨⟨upscaledWidth, frameHeight⟩, sizeSpan⟩ := found
  obtain ⟨wide, high⟩ := sides
  refine (superres_positive sequence upscaledWidth).bind fun narrow width => ?_
  have render : Step.Ensures start.Reaches (fun _ => True)
      (Read.spanned (renderSize upscaledWidth frameHeight)) fun found =>
        1 ≤ found.1.1 ∧ 1 ≤ found.1.2 := by
    refine (Read.pos_safe.mono_fails fun _ _ => trivial).bind fun _ _ => ?_
    refine (renderSize_positive wide.1 high.1).bind fun found known => ?_
    exact (Read.pos_safe.mono_fails fun _ _ => trivial).bind fun _ _ => .pure known
  refine render.bind fun found known => .pure ?_
  exact ⟨wide.1, width wide.1, high.1, known.1, known.2⟩

/-- A size that may be that of a reference is not empty unless it is. -/
theorem sizeWithReferences_scaled {start : BitReader} (inRange : sequence.InRange)
    (sizeOverride : Bool) (slots : RefSlots) (references : RefIndices) :
    Step.Ensures start.Reaches (fun _ => True)
      (sizeWithReferences sequence sizeOverride slots references) CodedSize.Scaled := by
  refine ((foundReference_safe _).mono_fails fun _ _ => trivial).bind fun found _ => ?_
  cases found with
  | none => exact (codedSize_positive inRange sizeOverride).mono fun _ known => .inl known
  | some slot =>
    exact (superres_positive sequence _).bind fun narrow width => .pure (.inr ⟨rfl, width⟩)

/-! ## The whole header -/

/-- Whatever comes of the step, slots without empty frames stay so. A value has `yields`. -/
abbrev KeepsPositive (step : ReadFrame α) (yields : α → Prop) : Prop :=
  Step.Ensures (fun state => state.slots.Positive) (fun _ => True) step yields

/-- Reading bits leaves the slots alone. -/
theorem KeepsPositive.lift {step : Read α} {yields : α → Prop}
    (known : ∀ {start : BitReader}, Step.Ensures start.Reaches (fun _ => True) step yields) :
    KeepsPositive (liftM step) yields := by
  intro state positive
  have known := known state.reader (.refl _)
  simp only [liftM, monadLift, MonadLift.monadLift]
  cases run : step state.reader with
  | ok value behind =>
    rw [run] at known
    exact ⟨known.1, positive⟩
  | error cause behind => exact ⟨trivial, positive⟩

theorem KeepsPositive.read (step : Read α) : KeepsPositive (liftM step) fun _ => True := by
  intro state positive
  simp only [liftM, monadLift, MonadLift.monadLift]
  cases step state.reader <;> exact ⟨trivial, positive⟩

theorem KeepsPositive.liftFault (result : Except Fault α) :
    KeepsPositive (liftM result) fun _ => True := by
  cases result with
  | ok value => exact Step.Ensures.pure trivial
  | error cause => exact Step.Ensures.throw trivial

theorem KeepsPositive.liftFrame (result : Except FrameError α) :
    KeepsPositive (liftM result) fun _ => True := by
  cases result with
  | ok value => exact Step.Ensures.pure trivial
  | error cause => exact Step.Ensures.throw trivial

theorem slots_positive : KeepsPositive slots RefSlots.Positive :=
  fun _ positive => ⟨positive, positive⟩

theorem modifySlots_positive {change : RefSlots → RefSlots}
    (kept : ∀ slots : RefSlots, slots.Positive → (change slots).Positive) :
    KeepsPositive (modifySlots change) fun _ => True :=
  .modify fun state positive => kept state.slots positive

theorem frameId_positive (inRange : sequence.InRange) :
    KeepsPositive (frameId sequence) fun _ => True := by
  unfold frameId
  cases present : sequence.frameIds with
  | none => exact .pure trivial
  | some ids =>
    refine (KeepsPositive.lift ((Read.bits_safe ids.idLength).mono_fails fun _ _ => trivial)).bind
      fun id known => ?_
    refine slots_positive.bind fun slots positive => ?_
    obtain ⟨kept, success, behind⟩ :=
      RefSlots.expire_positive (inRange.frameIds ids present) known positive
    rw [success]
    exact (modifySlots_positive fun _ _ => behind).bind fun _ _ => .pure trivial

theorem slotHints_positive (bits count i : Nat) :
    KeepsPositive (slotHints bits count i) fun _ => True := by
  induction count generalizing i with
  | zero => exact .pure trivial
  | succ count ih =>
    refine (KeepsPositive.read _).bind fun hint _ => ?_
    refine (modifySlots_positive fun slots positive => ?_).bind fun _ _ => ih (i + 1)
    intro slot member
    rcases Vector.mem_mapIdx.1 member with ⟨k, bound, rfl⟩
    split
    · rintro ⟨⟩
    · exact positive _ (Vector.getElem_mem bound)

theorem shortSignaling_positive (sequence : SequenceHeader) (slots : RefSlots) (orderHint : Nat) :
    KeepsPositive (shortSignaling sequence slots orderHint) fun _ => True := by
  refine (KeepsPositive.read _).bind fun _ _ => .ite (fun _ => ?_) fun _ => .pure trivial
  refine (KeepsPositive.read _).bind fun _ _ => (KeepsPositive.read _).bind fun _ _ => ?_
  refine (KeepsPositive.liftFault _).bind fun _ _ => ?_
  exact (KeepsPositive.liftFrame _).bind fun _ _ => .pure trivial

theorem checkFrameId_positive (ids : FrameIds) (frameId : Nat) (slots : RefSlots)
    (reference : Nat) (slot : Fin 8) :
    KeepsPositive (checkFrameId ids frameId slots reference slot) fun _ => True := by
  refine (KeepsPositive.read _).bind fun _ _ => (KeepsPositive.liftFault _).bind fun _ _ => ?_
  refine (KeepsPositive.liftFault _).bind fun _ _ => (KeepsPositive.liftFault _).bind fun _ _ => ?_
  refine (KeepsPositive.liftFault _).bind fun _ _ => ?_
  exact .ite (fun _ => .throw trivial) fun _ => .pure trivial

theorem references_positive (sequence : SequenceHeader) (frameId : Nat) (slots : RefSlots)
    (short : Option RefIndices) :
    KeepsPositive (references sequence frameId slots short) fun _ => True := by
  have checked (reference : Nat) (slot : Fin 8) :
      KeepsPositive (checkReference sequence frameId slots reference slot) fun _ => True := by
    unfold checkReference
    cases sequence.frameIds with
    | none => exact .pure trivial
    | some ids => exact checkFrameId_positive ids frameId slots reference slot
  have all : KeepsPositive (references sequence frameId slots short) fun found =>
      ∀ slot ∈ found, True := by
    refine .mapM_vector fun reference => ?_
    exact (KeepsPositive.read _).bind fun slot _ => (checked reference slot).bind fun _ _ =>
      .pure trivial
  exact all.mono fun _ _ => trivial

theorem inter_scaled (inRange : sequence.InRange) (frame : FrameKind) (tools : FrameTools)
    (frameId orderHint : Nat) (sizeOverride : Bool) :
    KeepsPositive (inter sequence frame tools frameId orderHint sizeOverride) fun found =>
      found.1.Scaled := by
  refine slots_positive.bind fun slots _ => ?_
  refine (shortSignaling_positive sequence slots orderHint).bind fun short _ => ?_
  refine (references_positive sequence frameId slots short).bind fun references _ => ?_
  have size : ∀ {start : BitReader}, Step.Ensures start.Reaches (fun _ => True)
      (interSize sequence frame sizeOverride slots references) CodedSize.Scaled :=
    .ite (fun _ => sizeWithReferences_scaled inRange sizeOverride slots references)
      fun _ => (codedSize_positive inRange sizeOverride).mono fun _ known => .inl known
  refine (KeepsPositive.lift size).bind fun coded scaled => ?_
  refine (KeepsPositive.read _).bind fun _ _ => (KeepsPositive.read _).bind fun _ _ => ?_
  refine (KeepsPositive.read _).bind fun _ _ => (KeepsPositive.read _).bind fun _ _ => ?_
  exact .pure scaled

theorem content_scaled (inRange : sequence.InRange) (frame : FrameKind) (tools : FrameTools)
    (frameId orderHint : Nat) (sizeOverride : Bool) :
    KeepsPositive (content sequence frame tools frameId orderHint sizeOverride) fun found =>
      found.1.Scaled := by
  have intra : ∀ {start : BitReader}, Step.Ensures start.Reaches (fun _ => True)
      (intra sequence tools sizeOverride) fun found => found.1.Scaled :=
    (codedSize_positive inRange sizeOverride).bind fun _ known =>
      ((Read.bitIf_safe _).mono_fails fun _ _ => trivial).bind fun _ _ => .pure (.inl known)
  refine .ite (fun _ => ?_) fun _ => ?_
  · exact (KeepsPositive.lift intra).bind fun _ known => .pure known
  · exact (inter_scaled inRange frame tools frameId orderHint sizeOverride).bind fun _ known =>
      .pure known

theorem checkPrimaryRef_positive (primaryRef : Nat) (references : RefIndices) :
    KeepsPositive (checkPrimaryRef primaryRef references) fun _ => True := by
  refine .ite (fun _ => ?_) fun _ => .pure trivial
  cases references.toList[primaryRef]? with
  | none => exact .throw trivial
  | some slot =>
    exact slots_positive.bind fun _ _ => .ite (fun _ => .pure trivial) fun _ => .throw trivial

theorem uncutFrame_scaled (inRange : sequence.InRange) (header : ObuHeader) (frame : FrameKind) :
    KeepsPositive (uncutFrame sequence header frame) fun uncut => uncut.toCodedSize.Scaled := by
  have begun : KeepsPositive (begin frame) fun _ => True := by
    refine modifySlots_positive fun slots positive => ?_
    split
    · exact slots.invalidate_positive
    · exact positive
  have flags : KeepsPositive (refreshFlags frame) fun _ => True := by
    refine .ite (fun _ => .pure trivial) fun _ => (KeepsPositive.read _).bind fun flags _ => ?_
    exact .ite (fun _ => .throw_bind trivial) fun _ => .pure trivial
  refine begun.bind fun _ _ => (KeepsPositive.read _).bind fun tools _ => ?_
  refine (frameId_positive inRange).bind fun frameId _ => ?_
  refine (KeepsPositive.read _).bind fun sizeOverride _ => ?_
  refine (KeepsPositive.read _).bind fun orderHint _ => (KeepsPositive.read _).bind fun _ _ => ?_
  refine (KeepsPositive.read _).bind fun _ _ => flags.bind fun _ _ => ?_
  refine (slotHints_positive _ _ _).bind fun _ _ => ?_
  refine (content_scaled inRange frame tools frameId orderHint sizeOverride).bind
    fun content scaled => ?_
  refine (KeepsPositive.read _).bind fun _ _ => ?_
  exact (checkPrimaryRef_positive _ _).bind fun _ _ => .pure scaled

theorem newFrame_scaled (inRange : sequence.InRange) (header : ObuHeader) (frame : FrameKind) :
    KeepsPositive (newFrame sequence header frame) fun frame =>
      frame.showExisting = false → frame.toCodedSize.Scaled :=
  (uncutFrame_scaled inRange header frame).bind fun _ scaled =>
    (KeepsPositive.read _).bind fun _ _ => .pure fun _ => scaled

theorem existing_positive (sequence : SequenceHeader) (header : ObuHeader) :
    KeepsPositive (existing sequence header) fun frame =>
      frame.showExisting = false → frame.toCodedSize.Scaled := by
  have display (shownSlot : Fin 8) (slot : RefSlot) :
      KeepsPositive (checkDisplayId sequence shownSlot slot) fun _ => True := by
    unfold checkDisplayId
    split
    · exact (KeepsPositive.read _).bind fun _ _ => .ite (fun _ => .throw trivial) fun _ =>
        .pure trivial
    · exact .pure trivial
  refine (KeepsPositive.read _).bind fun shownSlot _ => (KeepsPositive.read _).bind fun _ _ => ?_
  refine slots_positive.bind fun slots _ => (display shownSlot _).bind fun _ _ => ?_
  have showable : KeepsPositive (checkShowable shownSlot slots[shownSlot]) fun _ => True :=
    .ite (fun _ => .throw trivial) fun _ => .pure trivial
  exact showable.bind fun _ _ => .pure (by rintro ⟨⟩)

theorem frameHeader_scaled (inRange : sequence.InRange) (header : ObuHeader) :
    KeepsPositive (frameHeader sequence header) fun frame =>
      frame.showExisting = false → frame.toCodedSize.Scaled := by
  refine .ite (fun _ => newFrame_scaled inRange header _) fun _ => ?_
  refine (KeepsPositive.read _).bind fun _ _ => .ite (fun _ => ?_) fun _ => ?_
  · exact .ite (fun _ => .throw trivial) fun _ => existing_positive sequence header
  · exact (KeepsPositive.read _).bind fun frame _ => newFrame_scaled inRange header frame

end ReadFrame

/-- Reading a frame header leaves slots without empty frames behind, whatever comes of it. A frame
    of its own is not empty unless it has the size of an empty reference. -/
theorem FrameHeader.parse_scaled {sequence : SequenceHeader} (inRange : sequence.InRange)
    (header : ObuHeader) (payload : Bytes) :
    Step.Ensures RefSlots.Positive (fun _ => True) (parse sequence header payload) fun frame =>
      frame.showExisting = false → frame.toCodedSize.Scaled := by
  intro slots positive
  have known := ReadFrame.frameHeader_scaled inRange header
    { reader := .ofBytes payload, slots } positive
  unfold parse
  cases run : ReadFrame.frameHeader sequence header { reader := .ofBytes payload, slots } with
  | ok frame state =>
    rw [run] at known
    exact known
  | error cause state =>
    rw [run] at known
    exact known

/-- A frame that is not empty has a tile. -/
theorem FrameHeader.CutFor.tile {sequence : SequenceHeader} {frame : FrameHeader}
    (known : frame.CutFor sequence) (inRange : frame.InRange) (own : frame.showExisting = false)
    (positive : frame.size.Positive) :
    ∃ layout, frame.layout = some layout ∧ 1 ≤ layout.tileCount := by
  rcases known with ⟨shown, -⟩ | ⟨-, layout, cut, success⟩
  · rw [own] at shown
    cases shown
  · obtain ⟨other, again, expressible⟩ := inRange.layout own
    obtain rfl := Option.some.inj (cut.symm.trans again)
    have grid := SuperblockGrid.checked_eq success
    have sides : layout.grid.InRange := by
      rw [grid]
      rcases inRange.size with ⟨none, -⟩ | ⟨-, wide, high⟩
      · have some := positive.upscaledWidth
        omega
      · exact ⟨wide, high⟩
    have legal : layout.cuts.IsRead layout.grid layout.uniform := expressible.cuts
    exact ⟨layout, cut, legal.tiles_of_covered sides.sbCols.1 sides.sbRows.1⟩

end Av1Tiling
