import Av1Tiling.Proofs.Frame.Recut
import Av1Tiling.Proofs.Frame.Window
import Av1Tiling.Proofs.Obu.Reading
import Av1Tiling.Proofs.Sequence.Safety
import Av1Tiling.Proofs.Tile.Limits

/-!
# Frame headers without faults

A frame header computes with its sequence header and with what the reference slots remember. Where
these are in range, so is everything that is computed, the slots stay in range and the header that
was read brings only such values into them (`FrameHeader.InRange`). The one thing that the header
of the OBU has to see to is that there are bits for its layers.
-/

namespace Av1Tiling

/-- A side of a frame is neither empty nor too long. -/
def IsSide (length : Nat) : Prop :=
  1 ≤ length ∧ length ≤ SuperblockGrid.maxSide

/-- The size of a frame, or of no frame. -/
def FrameSize.InRange (size : FrameSize) : Prop :=
  size.upscaledWidth = 0 ∧ size.frameWidth = 0 ∧ size.frameHeight = 0 ∨
    IsSide size.upscaledWidth ∧ IsSide size.frameWidth ∧ IsSide size.frameHeight

/-- The most bits of an order hint. -/
def maxOrderHintBits : Nat := 8

/-- What frame headers compute with in a slot. -/
structure RefSlot.InRange (slot : RefSlot) : Prop where
  orderHint : slot.orderHint < 2 ^ maxOrderHintBits
  size : slot.size.InRange

/-- All slots are in range. -/
def RefSlots.InRange (slots : RefSlots) : Prop :=
  ∀ slot ∈ slots, slot.InRange

/-- What a header brings into the slots is in range, and a frame of its own has a layout. -/
structure FrameHeader.InRange (frame : FrameHeader) : Prop where
  orderHint : frame.orderHint < 2 ^ maxOrderHintBits
  size : frame.size.InRange
  layout : frame.showExisting = false → ∃ layout, frame.layout = some layout ∧ layout.Expressible

theorem RefSlot.empty_inRange (hint : Nat) (short : hint < 2 ^ maxOrderHintBits) :
    RefSlot.InRange { RefSlot.empty with orderHint := hint } :=
  ⟨short, .inl ⟨rfl, rfl, rfl⟩⟩

namespace RefSlots

variable {slots : RefSlots}

theorem empty_inRange : empty.InRange := by
  intro slot member
  rw [empty, Vector.mem_replicate] at member
  rw [member.2]
  exact RefSlot.empty_inRange 0 (by decide)

theorem InRange.slot (inRange : slots.InRange) (i : Fin 8) : (slots.get i).InRange :=
  inRange _ (Vector.getElem_mem i.isLt)

theorem InRange.invalidate (inRange : slots.InRange) : slots.invalidate.InRange := by
  intro slot member
  rcases Vector.mem_map.1 member with ⟨old, present, rfl⟩
  exact ⟨Nat.two_pow_pos _, (inRange old present).size⟩

theorem InRange.refresh (inRange : slots.InRange) (flags : Nat) {slot : RefSlot}
    (fresh : slot.InRange) : (slots.refresh flags slot).InRange := by
  intro found member
  rcases Vector.mem_mapIdx.1 member with ⟨i, bound, rfl⟩
  split
  · exact fresh
  · exact inRange _ (Vector.getElem_mem bound)

theorem inWindow_gives {ids : FrameIds} (inRange : ids.InRange) {current : Nat}
    (known : current < 2 ^ ids.idLength) (id : Nat) :
    Checked.Gives (inWindow ids current id) fun _ => True :=
  ⟨_, inWindow_eq inRange known id, trivial⟩

theorem expire_gives {ids : FrameIds} (idsInRange : ids.InRange) {current : Nat}
    (known : current < 2 ^ ids.idLength) (inRange : slots.InRange) :
    Checked.Gives (expire ids current slots) InRange := by
  refine .mapM_vector fun slot member => ?_
  refine (inWindow_gives idsInRange known slot.frameId).bind fun _ _ => .pure ?_
  exact ⟨(inRange slot member).orderHint, (inRange slot member).size⟩

end RefSlots

/-- Order hints are short enough to be subtracted. -/
theorem relativeDistance_eq_ok {bits a b : Nat} (present : 1 ≤ bits) (short : bits ≤ 8)
    (ha : a < 2 ^ maxOrderHintBits) (hb : b < 2 ^ maxOrderHintBits) :
    relativeDistance bits a b = .ok (Int.bmod (a - b) (2 ^ bits)) := by
  rw [maxOrderHintBits] at ha hb
  have whole : 2 * 2 ^ (bits - 1) = 2 ^ bits := by
    rw [← Nat.pow_succ', Nat.succ_eq_add_one, Nat.sub_add_cancel present]
  rw [relativeDistance, Checked.bind_of_ok (Checked.sub_eq_ok present),
    Checked.bind_of_ok (Checked.shift_eq_ok (by omega)),
    Checked.bind_of_ok (Checked.signedSub_eq_ok (by omega) (by omega)), whole]
  rfl

namespace ReadFrame

variable {α β : Type} {header : ObuHeader} {sequence : SequenceHeader} {start : BitReader}

/-- The step leaves slots in range behind. It yields a value with `yields`, or fails and not for a
    fault, if there are bits for the layers of the OBU. -/
abbrev Safe (header : ObuHeader) (step : ReadFrame α) (yields : α → Prop) : Prop :=
  Step.Ensures (fun state => state.slots.InRange) (fun cause => header.LayersFit → ¬ cause.IsFault)
    step yields

theorem Safe.liftLayers {step : Read α} {yields : α → Prop}
    (safe : ∀ {start : BitReader}, Step.Ensures start.Reaches
      (fun cause => header.LayersFit → ¬ cause.IsFault) step yields) :
    Safe header (liftM step) yields :=
  lift_ensures safe fun _ known fit => by
    rw [Failure.isFault_map]
    exact known fit

theorem Safe.lift {step : Read α} {yields : α → Prop}
    (safe : ∀ {start : BitReader}, Read.Safe start step yields) :
    Safe header (liftM step) yields :=
  .liftLayers (safe.mono_fails fun _ known _ => known)

theorem Safe.liftGives {result : Except Fault α} {yields : α → Prop}
    (gives : Checked.Gives result yields) : Safe header (liftM result) yields :=
  liftGives_ensures gives

theorem Safe.liftFrame (result : Except FrameError α) :
    Safe header (liftM result) fun _ => True := by
  cases result with
  | ok value => exact Step.Ensures.pure trivial
  | error cause => exact Step.Ensures.throw fun _ => Failure.not_isFault_raised _

theorem Safe.throwFrame (cause : FrameError) {yields : α → Prop} :
    Safe header (throw (.raised (.frame cause))) yields :=
  Step.Ensures.throw fun _ => Failure.not_isFault_raised _

theorem slots_safe : Safe header slots RefSlots.InRange :=
  fun _ inRange => ⟨inRange, inRange⟩

theorem modifySlots_safe {change : RefSlots → RefSlots}
    (kept : ∀ slots : RefSlots, slots.InRange → (change slots).InRange) :
    Safe header (modifySlots change) fun _ => True :=
  .modify fun state inRange => kept state.slots inRange

theorem slotIndex_safe : Read.Safe start slotIndex fun _ => True :=
  (Read.bits_safe 3).bind fun _ _ => .pure trivial

theorem bitUnless_safe (known : Option Bool) : Read.Safe start (bitUnless known) fun _ => True := by
  cases known with
  | none => exact Read.bit_safe
  | some value => exact .pure trivial

theorem presentationTime_safe (sequence : SequenceHeader) (shown : Bool) :
    Read.Safe start (presentationTime sequence shown) fun _ => True :=
  .ite (fun _ => (Read.bits_safe _).bind fun _ _ => .pure trivial) fun _ => .pure trivial

/-! ## A frame that exists already -/

theorem checkDisplayId_safe (sequence : SequenceHeader) (shownSlot : Fin 8) (slot : RefSlot) :
    Safe header (checkDisplayId sequence shownSlot slot) fun _ => True := by
  unfold checkDisplayId
  split
  · refine (Safe.lift (Read.bits_safe _)).bind fun id _ => ?_
    exact .ite (fun _ => Safe.throwFrame _) fun _ => .pure trivial
  · exact .pure trivial

theorem checkShowable_safe (shownSlot : Fin 8) (slot : RefSlot) :
    Safe header (checkShowable shownSlot slot) fun _ => True :=
  .ite (fun _ => Safe.throwFrame _) fun _ => .pure trivial

theorem existing_safe (sequence : SequenceHeader) (header : ObuHeader) :
    Safe header (existing sequence header) FrameHeader.InRange := by
  refine (Safe.lift slotIndex_safe).bind fun shownSlot _ => ?_
  refine (Safe.lift (presentationTime_safe sequence true)).bind fun _ _ => ?_
  refine slots_safe.bind fun slots inRange => ?_
  refine (checkDisplayId_safe sequence shownSlot _).bind fun _ _ => ?_
  refine (checkShowable_safe shownSlot _).bind fun _ _ => .pure ?_
  exact ⟨(inRange.slot shownSlot).orderHint, (inRange.slot shownSlot).size, by rintro ⟨⟩⟩

/-! ## A new frame -/

theorem kind_safe (sequence : SequenceHeader) :
    Read.Safe start (kind sequence) fun _ => True := by
  refine (Read.bits_safe 2).bind fun code _ => Read.bit_safe.bind fun showFrame _ => ?_
  refine (presentationTime_safe sequence showFrame).bind fun _ _ => ?_
  exact (bitUnless_safe _).bind fun _ _ => (bitUnless_safe _).bind fun _ _ => .pure trivial

theorem choice_safe (sequenceChoice : Nat) :
    Read.Safe start (choice sequenceChoice) fun _ => True :=
  .ite (fun _ => Read.bit_safe) fun _ => .pure trivial

theorem tools_safe (sequence : SequenceHeader) (type : FrameType) :
    Read.Safe start (tools sequence type) fun _ => True := by
  refine Read.bit_safe.bind fun _ _ => (choice_safe _).bind fun screenContentTools _ => ?_
  have integer : Read.Safe start (integerMv sequence screenContentTools) fun _ => True :=
    .ite (fun _ => choice_safe _) fun _ => .pure trivial
  exact integer.bind fun _ _ => .pure trivial

/-- What is read as the identifier of a frame has the length of identifiers. -/
def IsFrameId (sequence : SequenceHeader) (id : Nat) : Prop :=
  ∀ ids, sequence.frameIds = some ids → id < 2 ^ ids.idLength

theorem frameId_safe (inRange : sequence.InRange) :
    Safe header (frameId sequence) (IsFrameId sequence) := by
  unfold frameId
  cases present : sequence.frameIds with
  | none =>
    refine .pure fun ids found => ?_
    rw [present] at found
    cases found
  | some ids =>
    refine (Safe.lift (Read.bits_safe _)).bind fun id known => ?_
    refine slots_safe.bind fun slots slotsInRange => ?_
    have kept := RefSlots.expire_gives (inRange.frameIds ids present) known slotsInRange
    refine (Safe.liftGives kept).bind fun kept keptInRange => ?_
    refine (modifySlots_safe fun _ _ => keptInRange).bind fun _ _ => .pure fun other found => ?_
    rw [present] at found
    cases found
    exact known

/-- Only here a header of an OBU with too many layers makes a fault. -/
theorem bufferRemovalTimes_safe (sequence : SequenceHeader) (header : ObuHeader) :
    Step.Ensures start.Reaches (fun cause => header.LayersFit → ¬ cause.IsFault)
      (bufferRemovalTimes sequence header) fun _ => True := by
  have safe : ∀ {α : Type} {step : Read α} {yields : α → Prop}, Read.Safe start step yields →
      Step.Ensures start.Reaches (fun cause => header.LayersFit → ¬ cause.IsFault) step yields :=
    fun known => known.mono_fails fun _ noFault _ => noFault
  have takesIn : ∀ point : OperatingPoint, Step.Ensures start.Reaches
      (fun cause => header.LayersFit → ¬ cause.IsFault)
      (liftM (point.takesIn header.temporalId header.spatialId) : Read Bool) fun _ => True := by
    intro point
    by_cases fit : header.LayersFit
    · refine safe (.lift ?_)
      refine .ite (fun _ => .pure trivial) fun _ => ?_
      refine (Checked.shift_gives fit.temporal).bind fun _ _ => ?_
      exact (Checked.shift_gives fit.spatial).bind fun _ _ => .pure trivial
    · intro reader reached
      cases point.takesIn header.temporalId header.spatialId with
      | ok value => exact ⟨trivial, reached⟩
      | error cause => exact ⟨fun fits => absurd fits fit, reached⟩
  unfold bufferRemovalTimes
  cases sequence.decoderModel with
  | none => exact .pure trivial
  | some model =>
    refine (safe Read.bit_safe).bind fun _ _ => .ite (fun _ => ?_) fun _ => .pure trivial
    refine (Step.Ensures.forIn fun point => ?_).bind fun _ _ => .pure trivial
    refine .ite (fun _ => (takesIn point).bind fun _ _ => ?_) fun _ => .pure trivial
    refine .ite (fun _ => ?_) fun _ => .pure trivial
    exact (safe (Read.bits_safe _)).bind fun _ _ => .pure trivial

theorem refreshFlags_safe (frame : FrameKind) :
    Safe header (refreshFlags frame) fun _ => True := by
  refine .ite (fun _ => .pure trivial) fun _ => ?_
  refine (Safe.lift (Read.bits_safe 8)).bind fun flags _ => ?_
  exact .ite (fun _ => .throw_bind fun _ => Failure.not_isFault_raised _) fun _ => .pure trivial

theorem slotHints_safe {bits : Nat} (short : bits ≤ maxOrderHintBits) (count i : Nat) :
    Safe header (slotHints bits count i) fun _ => True := by
  induction count generalizing i with
  | zero => exact .pure trivial
  | succ count ih =>
    refine (Safe.lift (Read.bits_safe bits)).bind fun hint known => ?_
    have fits : hint < 2 ^ maxOrderHintBits :=
      Nat.lt_of_lt_of_le known (Nat.pow_le_pow_right (by decide) short)
    refine (modifySlots_safe fun slots inRange => ?_).bind fun _ _ => ih (i + 1)
    intro slot member
    rcases Vector.mem_mapIdx.1 member with ⟨k, bound, rfl⟩
    split
    · exact RefSlot.empty_inRange hint fits
    · exact inRange _ (Vector.getElem_mem bound)

/-! ## Sizes -/

/-- Widths in front of super-resolution are no greater than behind it, and empty only together. -/
def IsDownscaled (upscaledWidth : Nat) (found : Nat × Nat) : Prop :=
  (upscaledWidth = 0 → found.2 = 0) ∧ (1 ≤ upscaledWidth → 1 ≤ found.2) ∧ found.2 ≤ upscaledWidth

theorem superresDenom_safe (sequence : SequenceHeader) :
    Read.Safe start (superresDenom sequence) fun denom => 8 ≤ denom ∧ denom ≤ 16 := by
  refine (Read.bitIf_safe _).bind fun _ _ => .ite (fun _ => ?_) fun _ => .pure (by decide)
  exact (Read.bits_safe 3).bind fun extra small => .pure (by omega)

theorem superres_safe (sequence : SequenceHeader) {upscaledWidth : Nat}
    (narrow : upscaledWidth ≤ SuperblockGrid.maxSide) :
    Read.Safe start (superres sequence upscaledWidth) (IsDownscaled upscaledWidth) := by
  rw [SuperblockGrid.maxSide] at narrow
  refine (superresDenom_safe sequence).bind fun denom known => ?_
  have width : Checked.Gives (FrameSize.downscaledWidth upscaledWidth denom) fun width =>
      width = (upscaledWidth * 8 + denom / 2) / denom := by
    have fits : upscaledWidth * FrameSize.superresNum + denom / 2 < Checked.wordBound := by
      rw [FrameSize.superresNum, Checked.wordBound]
      omega
    refine (Checked.word_gives fits).bind fun _ same => ?_
    rw [same]
    exact Checked.div_gives (by omega)
  refine (Read.Safe.lift width).bind fun width same => .pure ?_
  subst same
  refine ⟨fun empty => ?_, fun some => ?_, ?_⟩
  · subst empty
    exact Nat.div_eq_of_lt (by omega)
  · exact Nat.div_pos (by omega) (by omega)
  · refine Nat.le_of_lt_succ ((Nat.div_lt_iff_lt_mul (by omega)).2 ?_)
    have wide : upscaledWidth * 8 ≤ upscaledWidth * denom := Nat.mul_le_mul_left _ known.1
    rw [Nat.succ_mul]
    omega

theorem dimensions_safe (inRange : sequence.InRange) (sizeOverride : Bool) :
    Read.Safe start (dimensions sequence sizeOverride) fun found =>
      IsSide found.1.1 ∧ IsSide found.1.2 := by
  refine .ite (fun _ => ?_) fun _ => .pure ⟨inRange.dimensions.width, inRange.dimensions.height⟩
  have side : ∀ {bits value : Nat}, bits ≤ 16 → value < 2 ^ bits → IsSide (value + 1) := by
    intro bits value short known
    have widest : 2 ^ bits ≤ 2 ^ 16 := Nat.pow_le_pow_right (by decide) short
    rw [IsSide, SuperblockGrid.maxSide]
    omega
  have coded : Read.Safe start (do
      let width := (← Read.bits sequence.dimensions.widthBits) + 1
      let height := (← Read.bits sequence.dimensions.heightBits) + 1
      return (width, height)) fun found => IsSide found.1 ∧ IsSide found.2 := by
    refine (Read.bits_safe _).bind fun width narrow => (Read.bits_safe _).bind fun height low => ?_
    exact .pure ⟨side inRange.dimensions.widthBits narrow, side inRange.dimensions.heightBits low⟩
  exact (Read.spanned_safe coded).bind fun found known => .pure known

theorem renderSize_safe (width height : Nat) :
    Read.Safe start (renderSize width height) fun _ => True := by
  refine Read.bit_safe.bind fun _ _ => .ite (fun _ => ?_) fun _ => .pure trivial
  exact (Read.bits_safe 16).bind fun _ _ => (Read.bits_safe 16).bind fun _ _ => .pure trivial

theorem codedSize_safe (inRange : sequence.InRange) (sizeOverride : Bool) :
    Read.Safe start (codedSize sequence sizeOverride) fun coded => coded.size.InRange := by
  refine (dimensions_safe inRange sizeOverride).bind fun found sides => ?_
  rcases found with ⟨⟨upscaledWidth, frameHeight⟩, sizeSpan⟩
  rcases sides with ⟨wide, high⟩
  refine (superres_safe sequence wide.2).bind fun narrow downscaled => ?_
  refine (Read.spanned_safe (renderSize_safe _ _)).bind fun render _ => .pure ?_
  exact .inr ⟨wide, ⟨downscaled.2.1 wide.1, Nat.le_trans downscaled.2.2 wide.2⟩, high⟩

theorem foundReference_safe (references : List (Fin 8)) :
    Read.Safe start (foundReference references) fun _ => True := by
  induction references with
  | nil => exact .pure trivial
  | cons slot rest ih =>
    exact Read.bit_safe.bind fun _ _ => .ite (fun _ => .pure trivial) fun _ => ih

/-- The size of a slot is scaled anew. That of no frame stays empty. -/
theorem sizeWithReferences_safe (inRange : sequence.InRange) (sizeOverride : Bool)
    {slots : RefSlots} (slotsInRange : slots.InRange) (references : RefIndices) :
    Read.Safe start (sizeWithReferences sequence sizeOverride slots references) fun coded =>
      coded.size.InRange := by
  refine (foundReference_safe _).bind fun found _ => ?_
  cases found with
  | none => exact codedSize_safe inRange sizeOverride
  | some slot =>
    rcases (slotsInRange.slot slot).size with ⟨noWidth, -, noHeight⟩ | ⟨wide, -, high⟩
    · have none : (slots.get slot).size.upscaledWidth ≤ SuperblockGrid.maxSide := by
        rw [noWidth]
        exact Nat.zero_le _
      refine (superres_safe sequence none).bind fun narrow downscaled => .pure ?_
      exact .inl ⟨noWidth, downscaled.1 noWidth, noHeight⟩
    · refine (superres_safe sequence wide.2).bind fun narrow downscaled => .pure ?_
      exact .inr ⟨wide, ⟨downscaled.2.1 wide.1, Nat.le_trans downscaled.2.2 wide.2⟩, high⟩

/-! ## References -/

theorem shortSignaling_safe (inRange : sequence.InRange) {slots : RefSlots}
    (slotsInRange : slots.InRange) {orderHint : Nat} (short : orderHint < 2 ^ maxOrderHintBits) :
    Safe header (shortSignaling sequence slots orderHint) fun _ => True := by
  by_cases present : sequence.inter.orderHint = true
  · have distances : Checked.Gives (distances sequence slots orderHint) fun found =>
        ∀ distance ∈ found, True := by
      refine .mapM_vector fun slot member => ?_
      exact ⟨_, relativeDistance_eq_ok (inRange.inter.present present) inRange.inter.short
        (slotsInRange slot member).orderHint short, trivial⟩
    refine (Safe.lift (Read.bitIf_safe _)).bind fun _ _ => .ite (fun _ => ?_) fun _ => .pure trivial
    refine (Safe.lift slotIndex_safe).bind fun _ _ => (Safe.lift slotIndex_safe).bind fun _ _ => ?_
    refine (Safe.liftGives distances).bind fun _ _ => ?_
    exact (Safe.liftFrame _).bind fun _ _ => .pure trivial
  · have absent : Read.bitIf sequence.inter.orderHint = pure false := by
      rw [Read.bitIf, if_neg present]
    unfold shortSignaling
    rw [absent]
    exact .pure trivial

theorem checkFrameId_safe {ids : FrameIds} (inRange : ids.InRange) {frameId : Nat}
    (known : frameId < 2 ^ ids.idLength) (slots : RefSlots) (reference : Nat) (slot : Fin 8) :
    Safe header (checkFrameId ids frameId slots reference slot) fun _ => True :=
  ((checkFrameId_ensures inRange known slots reference slot).mono fun _ _ => trivial).mono_fails
    fun _ noFault _ => noFault

theorem references_safe (inRange : sequence.InRange) {frameId : Nat}
    (known : IsFrameId sequence frameId) (slots : RefSlots) (short : Option RefIndices) :
    Safe header (references sequence frameId slots short) fun _ => True := by
  have chosen : ∀ {start : BitReader} reference,
      Read.Safe start (referenceSlot short reference) fun _ => True := by
    intro start reference
    cases short with
    | none => exact slotIndex_safe
    | some chosen => exact .pure trivial
  have checked : ∀ reference slot,
      Safe header (checkReference sequence frameId slots reference slot) fun _ => True := by
    intro reference slot
    unfold checkReference
    cases present : sequence.frameIds with
    | none => exact .pure trivial
    | some ids => exact checkFrameId_safe (inRange.frameIds ids present) (known ids present) _ _ _
  have all : Safe header (references sequence frameId slots short) fun found =>
      ∀ slot ∈ found, True := by
    refine .mapM_vector fun reference => ?_
    exact (Safe.lift (chosen reference)).bind fun slot _ => (checked reference slot).bind fun _ _ =>
      .pure trivial
  exact all.mono fun _ _ => trivial

theorem interpolationFilter_safe : Read.Safe start interpolationFilter fun _ => True :=
  Read.bit_safe.bind fun _ _ => .ite (fun _ => .pure trivial) fun _ =>
    (Read.bits_safe 2).mono fun _ _ => trivial

/-! ## The whole header -/

theorem intra_safe (inRange : sequence.InRange) (tools : FrameTools) (sizeOverride : Bool) :
    Read.Safe start (intra sequence tools sizeOverride) fun found => found.1.size.InRange :=
  (codedSize_safe inRange sizeOverride).bind fun _ known => (Read.bitIf_safe _).bind fun _ _ =>
    .pure known

theorem inter_safe (inRange : sequence.InRange) (frame : FrameKind) (tools : FrameTools)
    {frameId orderHint : Nat} (known : IsFrameId sequence frameId)
    (short : orderHint < 2 ^ maxOrderHintBits) (sizeOverride : Bool) :
    Safe header (inter sequence frame tools frameId orderHint sizeOverride) fun found =>
      found.1.size.InRange := by
  refine slots_safe.bind fun slots slotsInRange => ?_
  refine (shortSignaling_safe inRange slotsInRange short).bind fun chosen _ => ?_
  refine (references_safe inRange known slots chosen).bind fun references _ => ?_
  have size : ∀ {start : BitReader}, Read.Safe start
      (interSize sequence frame sizeOverride slots references) fun coded => coded.size.InRange :=
    .ite (fun _ => sizeWithReferences_safe inRange sizeOverride slotsInRange references)
      fun _ => codedSize_safe inRange sizeOverride
  refine (Safe.lift size).bind fun coded sizeInRange => ?_
  refine (Safe.lift (Read.bitIf_safe _)).bind fun _ _ => ?_
  refine (Safe.lift interpolationFilter_safe).bind fun _ _ => ?_
  refine (Safe.lift Read.bit_safe).bind fun _ _ => ?_
  exact (Safe.lift (Read.bitIf_safe _)).bind fun _ _ => .pure sizeInRange

theorem content_safe (inRange : sequence.InRange) (frame : FrameKind) (tools : FrameTools)
    {frameId orderHint : Nat} (known : IsFrameId sequence frameId)
    (short : orderHint < 2 ^ maxOrderHintBits) (sizeOverride : Bool) :
    Safe header (content sequence frame tools frameId orderHint sizeOverride) fun found =>
      found.1.size.InRange := by
  refine .ite (fun _ => ?_) fun _ => ?_
  · exact (Safe.lift (intra_safe inRange tools sizeOverride)).bind fun _ known => .pure known
  · exact (inter_safe inRange frame tools known short sizeOverride).bind fun _ known => .pure known

theorem primaryRef_safe (frame : FrameKind) :
    Read.Safe start (primaryRef frame) (· ≤ FrameHeader.noPrimaryRef) := by
  refine .ite (fun _ => .pure (Nat.le_refl _)) fun _ => (Read.bits_safe 3).mono fun _ known => ?_
  exact Nat.le_of_lt_succ known

theorem checkPrimaryRef_safe {primaryRef : Nat} (known : primaryRef ≤ FrameHeader.noPrimaryRef)
    (references : RefIndices) : Safe header (checkPrimaryRef primaryRef references) fun _ => True := by
  rw [FrameHeader.noPrimaryRef] at known
  refine .ite (fun some => ?_) fun _ => .pure trivial
  rw [FrameHeader.noPrimaryRef] at some
  have inside : primaryRef < references.toList.length := by
    rw [Vector.length_toList]
    omega
  rw [List.getElem?_eq_getElem inside]
  exact slots_safe.bind fun _ _ => .ite (fun _ => .pure trivial) fun _ => Safe.throwFrame _

theorem begin_safe (frame : FrameKind) : Safe header (begin frame) fun _ => True := by
  refine modifySlots_safe fun slots inRange => ?_
  split
  · exact inRange.invalidate
  · exact inRange

theorem uncutFrame_safe (inRange : sequence.InRange) (header : ObuHeader) (frame : FrameKind) :
    Safe header (uncutFrame sequence header frame) fun uncut =>
      uncut.orderHint < 2 ^ maxOrderHintBits ∧ uncut.size.InRange ∧ uncut.showExisting = false := by
  refine (begin_safe frame).bind fun _ _ => ?_
  refine (Safe.lift (tools_safe sequence frame.type)).bind fun tools _ => ?_
  refine (frameId_safe inRange).bind fun frameId known => ?_
  refine (Safe.lift (bitUnless_safe _)).bind fun sizeOverride _ => ?_
  refine (Safe.lift (Read.bits_safe _)).bind fun orderHint hintKnown => ?_
  have short : orderHint < 2 ^ maxOrderHintBits :=
    Nat.lt_of_lt_of_le hintKnown (Nat.pow_le_pow_right (by decide) inRange.inter.short)
  refine (Safe.lift (primaryRef_safe frame)).bind fun primaryRef primaryKnown => ?_
  refine (Safe.liftLayers (bufferRemovalTimes_safe sequence header)).bind fun _ _ => ?_
  refine (refreshFlags_safe frame).bind fun refreshFlags _ => ?_
  refine (slotHints_safe inRange.inter.short _ _).bind fun _ _ => ?_
  refine (content_safe inRange frame tools known short sizeOverride).bind fun content size => ?_
  refine (Safe.lift (bitUnless_safe _)).bind fun _ _ => ?_
  exact (checkPrimaryRef_safe primaryKnown _).bind fun _ _ => .pure ⟨short, size, rfl⟩

/-- The grid of a frame is covered by superblocks, and that of no frame by none. -/
theorem grid_gives {size : FrameSize} (inRange : size.InRange) (large : Bool) :
    Checked.Gives (SuperblockGrid.checked size.frameWidth size.frameHeight large)
      SuperblockGrid.Covered := by
  let grid : SuperblockGrid := ⟨size.frameWidth, size.frameHeight, large⟩
  rcases inRange with ⟨-, noWidth, noHeight⟩ | ⟨-, wide, high⟩
  · refine ⟨grid, ?_, SuperblockGrid.covered_of_empty noWidth noHeight⟩
    simp only [grid, noWidth, noHeight]
    cases large <;> rfl
  · have inside : grid.InRange := ⟨wide, high⟩
    exact ⟨grid, inside.checked, inside.covered⟩

theorem tileInfo_safe (sequence : SequenceHeader) {size : FrameSize} (inRange : size.InRange) :
    Read.Safe start (tileInfo sequence size) fun found => found.1.Expressible := by
  rcases grid_gives inRange sequence.largeSuperblocks with ⟨grid, success, covered⟩
  unfold tileInfo
  rw [Step.liftFault_bind success]
  have narrow := SuperblockGrid.checked_sound success
  exact (Read.spanned_safe (TileLayout.read_safe narrow covered)).mono fun _ known => known.2

theorem newFrame_safe (inRange : sequence.InRange) (header : ObuHeader) (frame : FrameKind) :
    Safe header (newFrame sequence header frame) FrameHeader.InRange := by
  refine (uncutFrame_safe inRange header frame).bind fun uncut known => ?_
  rcases known with ⟨orderHint, size, -⟩
  refine (Safe.lift (tileInfo_safe sequence size)).bind fun found expressible => .pure ?_
  exact ⟨orderHint, size, fun _ => ⟨found.1, rfl, expressible⟩⟩

theorem frameHeader_safe (inRange : sequence.InRange) (header : ObuHeader) :
    Safe header (frameHeader sequence header) FrameHeader.InRange := by
  refine .ite (fun _ => newFrame_safe inRange header _) fun _ => ?_
  refine (Safe.lift Read.bit_safe).bind fun _ _ => .ite (fun _ => ?_) fun _ => ?_
  · exact .ite (fun _ => Safe.throwFrame _) fun _ => existing_safe sequence header
  · exact (Safe.lift (kind_safe sequence)).bind fun frame _ => newFrame_safe inRange header frame

end ReadFrame

namespace FrameHeader

/-- Reading a frame header leaves slots in range behind, whatever comes of it. -/
theorem parse_ensures {sequence : SequenceHeader} (inRange : sequence.InRange)
    (header : ObuHeader) (payload : Bytes) :
    Step.Ensures RefSlots.InRange (fun cause => header.LayersFit → ¬ cause.IsFault)
      (parse sequence header payload) InRange := by
  intro slots slotsInRange
  have known := ReadFrame.frameHeader_safe inRange header
    { reader := .ofBytes payload, slots } slotsInRange
  unfold parse
  cases run : ReadFrame.frameHeader sequence header { reader := .ofBytes payload, slots } with
  | ok frame state =>
    rw [run] at known
    exact known
  | error cause state =>
    rw [run] at known
    exact known

/-- A complete frame brings values in range into the slots. -/
theorem InRange.updateSlots {frame : FrameHeader} (inRange : frame.InRange) {slots : RefSlots}
    (slotsInRange : slots.InRange) : (frame.updateSlots slots).InRange := by
  unfold FrameHeader.updateSlots
  split
  · split
    · exact slotsInRange.refresh _ (slotsInRange.slot _)
    · exact slotsInRange
  · exact slotsInRange.refresh _ ⟨inRange.orderHint, inRange.size⟩

end FrameHeader

end Av1Tiling
