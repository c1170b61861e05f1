import Av1Tiling.Proofs.Bits.Moving
import Av1Tiling.Proofs.Frame.Grid

/-!
# The parts of a frame header

A frame header says some things in front of the size of the frame and some behind it. What stands
behind the size is read alike at any place, and only depends on the size in whether the frame is
scaled. The header of an intra frame is read alike over any slots.
-/

namespace Av1Tiling

open Read (bit_movable bits_movable bitIf_movable bits_exact)

namespace ReadFrame

variable {α β : Type}

theorem liftM_pure (value : α) : (liftM (pure value : Read α) : ReadFrame α) = pure value := rfl

theorem liftM_bind (step : Read α) (next : α → Read β) :
    (liftM (step >>= next) : ReadFrame β) =
      liftM step >>= fun value => (liftM (next value) : ReadFrame β) := by
  funext state
  simp only [liftM, monadLift, MonadLift.monadLift, bind, EStateM.bind]
  cases step state.reader <;> rfl

/-! ## In front of the size and behind it -/

/-- What an inter frame says in front of its size. -/
structure Referencing where
  short : Bool
  references : RefIndices
  /-- The slots as they are there. -/
  slots : RefSlots
  /-- The slot whose size the frame has. -/
  sized : Option (Fin 8)

/-- What a header says in front of the size of the frame. -/
structure Ahead where
  tools : FrameTools
  frameId : Nat
  sizeOverride : Bool
  orderHint : Nat
  primaryRef : Nat
  refreshFlags : Nat
  /-- Intra frames have no references. -/
  inter : Option Referencing

/-- Reads the references of an inter frame, and whether it has the size of one. -/
def referencing (sequence : SequenceHeader) (frame : FrameKind) (frameId orderHint : Nat)
    (sizeOverride : Bool) : ReadFrame Referencing := do
  let slots ← slots
  let short ← shortSignaling sequence slots orderHint
  let references ← references sequence frameId slots short
  let sized ←
    if sizeOverride && !frame.errorResilient then foundReference references.toList else pure none
  return { short := short.isSome, references, slots, sized }

/-- Reads what a header says in front of the size of the frame. -/
def ahead (sequence : SequenceHeader) (header : ObuHeader) (frame : FrameKind) :
    ReadFrame Ahead := do
  let reduced := sequence.reducedStillPicture
  begin frame
  let tools ← tools sequence frame.type
  let frameId ← frameId sequence
  let sizeOverride ←
    bitUnless (if frame.type = .switch then some true else if reduced then some false else none)
  let orderHint ← Read.bits sequence.inter.orderHintBits
  let primaryRef ← primaryRef frame
  bufferRemovalTimes sequence header
  let refreshFlags ← refreshFlags frame
  slotHints sequence.inter.orderHintBits
    (if slotHintsPresent sequence frame refreshFlags then 8 else 0) 0
  if frame.type.isIntra then
    return { tools, frameId, sizeOverride, orderHint, primaryRef, refreshFlags, inter := none }
  else
    let inter ← referencing sequence frame frameId orderHint sizeOverride
    return { tools, frameId, sizeOverride, orderHint, primaryRef, refreshFlags, inter := some inter }

/-- Reads the size of a frame. -/
def size (sequence : SequenceHeader) (ahead : Ahead) : Read CodedSize :=
  match ahead.inter.bind fun inter => inter.sized.map fun slot => (inter.slots.get slot).size with
  | none => codedSize sequence ahead.sizeOverride
  | some size => do
    let (superresDenom, frameWidth) ← superres sequence size.upscaledWidth
    return { size := { size with frameWidth, superresDenom }, sizeSpan := none, renderSpan := none }

/-- Reads what is said of prediction behind the size of a frame. -/
def prediction (sequence : SequenceHeader) (frame : FrameKind) (ahead : Ahead) (size : FrameSize) :
    Read (Bool × Prediction) :=
  match ahead.inter with
  | none => do
    let allowIntrabc ←
      Read.bitIf (ahead.tools.screenContentTools && size.upscaledWidth == size.frameWidth)
    return (allowIntrabc, .none)
  | some inter => do
    let highPrecisionMv ← Read.bitIf !ahead.tools.forceIntegerMv
    let interpolationFilter ← interpolationFilter
    let motionModeSwitchable ← Read.bit
    let useRefFrameMvs ← Read.bitIf (!frame.errorResilient && sequence.inter.refFrameMvs)
    return (false, {
      shortSignaling := inter.short, references := inter.references, highPrecisionMv
      interpolationFilter, motionModeSwitchable, useRefFrameMvs })

/-- Reads what a header says behind the size of the frame, up to its tiles. -/
def behindSize (sequence : SequenceHeader) (header : ObuHeader) (frame : FrameKind) (ahead : Ahead)
    (coded : CodedSize) : ReadFrame FrameHeader := do
  let (allowIntrabc, prediction) ← prediction sequence frame ahead coded.size
  let disableFrameEndUpdateCdf ← bitUnless
    (if sequence.reducedStillPicture || ahead.tools.disableCdfUpdate then some true else none)
  checkPrimaryRef ahead.primaryRef prediction.references
  return {
    frame, ahead.tools, coded, prediction with
    header, showExisting := false, shownSlot := 0, frameId := ahead.frameId
    sizeOverride := ahead.sizeOverride, orderHint := ahead.orderHint, primaryRef := ahead.primaryRef
    refreshFlags := ahead.refreshFlags, allowIntrabc, disableFrameEndUpdateCdf, layout := none
    layoutSpan := none }

theorem uncutFrame_eq (sequence : SequenceHeader) (header : ObuHeader) (frame : FrameKind) :
    uncutFrame sequence header frame = ahead sequence header frame >>= fun ahead =>
      liftM (size sequence ahead) >>= fun coded =>
        behindSize sequence header frame ahead coded := by
  cases intra : frame.type.isIntra with
  | true =>
    simp only [uncutFrame, ahead, content, intra, if_true, bind_assoc, pure_bind, size, behindSize,
      prediction, ReadFrame.intra, liftM_bind, liftM_pure, Option.bind_none]
  | false =>
    simp only [uncutFrame, ahead, content, intra, if_false, bind_assoc, pure_bind, size, behindSize,
      prediction, inter, referencing, liftM_bind, liftM_pure, Bool.false_eq_true]
    refine bind_congr fun _ => bind_congr fun tools => bind_congr fun frameId => ?_
    refine bind_congr fun sizeOverride => bind_congr fun orderHint => bind_congr fun _ => ?_
    refine bind_congr fun _ => bind_congr fun _ => bind_congr fun _ => bind_congr fun slots => ?_
    refine bind_congr fun short => bind_congr fun references => ?_
    cases sized : sizeOverride && !frame.errorResilient with
    | false => simp only [interSize, sized, Bool.false_eq_true, if_false, pure_bind]; rfl
    | true =>
      simp only [interSize, sized, if_true, sizeWithReferences, liftM_bind, bind_assoc, pure_bind]
      refine bind_congr fun found => ?_
      cases found with
      | none => rfl
      | some slot => rfl

/-! ## What the parts depend on -/

theorem referencing_exact (sequence : SequenceHeader) (frame : FrameKind)
    (frameId orderHint : Nat) (sizeOverride : Bool) :
    Exact (referencing sequence frame frameId orderHint sizeOverride) :=
  Exact.slots.bind fun _ => (shortSignaling_exact _ _ _).bind fun _ =>
    (references_exact _ _ _ _).bind fun _ => .ite
      ((Exact.lift (foundReference_exact _)).bind fun _ => .pure _) (.pure _)

theorem ahead_exact (sequence : SequenceHeader) (header : ObuHeader) (frame : FrameKind) :
    Exact (ahead sequence header frame) :=
  (Exact.modifySlots _).bind fun _ => (Exact.lift (tools_exact _ _)).bind fun _ =>
    (frameId_exact _).bind fun _ => (Exact.lift (bitUnless_exact _)).bind fun _ =>
      (Exact.lift (bits_exact _)).bind fun _ =>
        (Exact.lift (.ite (.pure _) (bits_exact _))).bind fun _ =>
          (Exact.lift (bufferRemovalTimes_exact _ _)).bind fun _ =>
            (refreshFlags_exact _).bind fun _ => (slotHints_exact _ _ _).bind fun _ =>
              .ite (.pure _) ((referencing_exact _ _ _ _ _).bind fun _ => .pure _)

theorem prediction_movable (sequence : SequenceHeader) (frame : FrameKind) (ahead : Ahead)
    (size : FrameSize) : Read.Movable (prediction sequence frame ahead size) := by
  unfold prediction
  cases ahead.inter with
  | none => exact (bitIf_movable _).bind fun _ => .pure _
  | some inter =>
    have filter : Read.Movable interpolationFilter :=
      bit_movable.bind fun _ => .ite (.pure _) (bits_movable 2)
    exact (bitIf_movable _).bind fun _ => filter.bind fun _ => bit_movable.bind fun _ =>
      (bitIf_movable _).bind fun _ => .pure _

/-- Of the size, prediction only depends on whether the frame is scaled. -/
theorem prediction_congr (sequence : SequenceHeader) (frame : FrameKind) (ahead : Ahead)
    {size other : FrameSize}
    (same : (other.upscaledWidth == other.frameWidth) = (size.upscaledWidth == size.frameWidth)) :
    prediction sequence frame ahead other = prediction sequence frame ahead size := by
  unfold prediction
  cases ahead.inter with
  | none => simp only [same]
  | some inter => rfl

theorem bitUnless_movable (known : Option Bool) : Read.Movable (bitUnless known) := by
  cases known with
  | none => exact bit_movable
  | some value => exact .pure value

/-- The check of the primary reference reads nothing and changes nothing. -/
theorem checkPrimaryRef_eq_ok {primaryRef : Nat} {references : RefIndices}
    {state behind : FrameState} {value : Unit}
    (run : checkPrimaryRef primaryRef references state = .ok value behind) :
    behind = state ∧ ∀ reader, checkPrimaryRef primaryRef references ⟨reader, state.slots⟩ =
      .ok () ⟨reader, state.slots⟩ := by
  unfold checkPrimaryRef at run ⊢
  by_cases none : primaryRef ≠ FrameHeader.noPrimaryRef
  · rw [if_pos none] at run ⊢
    cases found : references.toList[primaryRef]? with
    | none =>
      rw [found] at run
      cases run
    | some slot =>
      rw [found] at run
      obtain ⟨_, _, first, run⟩ := Step.bind_eq_ok.1 run
      cases first
      cases valid : state.slots[slot].valid with
      | false =>
        rw [valid] at run
        cases run
      | true =>
        rw [valid] at run
        cases run
        refine ⟨rfl, fun reader => ?_⟩
        show (if state.slots[slot].valid then _ else _ : ReadFrame Unit) _ = _
        rw [valid]
        rfl
  · rw [if_neg none] at run ⊢
    cases run
    exact ⟨rfl, fun _ => rfl⟩

/-- What is said behind the size is said in the same way of another size and at another place, if
    only both frames are scaled or none is. -/
theorem behindSize_sound {sequence : SequenceHeader} {header : ObuHeader} {frame : FrameKind}
    {ahead : Ahead} {coded : CodedSize} {state behind : FrameState} {found : FrameHeader}
    (run : behindSize sequence header frame ahead coded state = .ok found behind) :
    found.toFrameKind = frame ∧ found.toCodedSize = coded ∧
      found.sizeOverride = ahead.sizeOverride ∧
      behind.slots = state.slots ∧ ∃ used, state.reader.Advances used behind.reader ∧
        ∀ (other : CodedSize) (pos : Nat),
          (other.size.upscaledWidth == other.size.frameWidth) =
            (coded.size.upscaledWidth == coded.size.frameWidth) →
          Yields (behindSize sequence header frame ahead other) pos state.slots used
            { found with toCodedSize := other } state.slots := by
  obtain ⟨⟨allowIntrabc, prediction⟩, between, first, run⟩ := Step.bind_eq_ok.1 run
  obtain ⟨disable, after, second, run⟩ := Step.bind_eq_ok.1 run
  obtain ⟨_, last, third, run⟩ := Step.bind_eq_ok.1 run
  cases run
  obtain ⟨first, slots₁⟩ := lift_eq_ok.1 first
  obtain ⟨second, slots₂⟩ := lift_eq_ok.1 second
  obtain ⟨rfl, checked⟩ := checkPrimaryRef_eq_ok third
  obtain ⟨used, advances, yields⟩ := prediction_movable _ _ _ _ _ _ _ first
  obtain ⟨more, onward, others⟩ := bitUnless_movable _ _ _ _ second
  rw [slots₂, slots₁] at checked
  refine ⟨rfl, rfl, rfl, slots₂.trans slots₁, used ++ more, advances.trans onward, ?_⟩
  intro other pos same rest
  have front := Yields.lift (yields pos) state.slots
  rw [← prediction_congr sequence frame ahead same] at front
  have middle := Yields.lift (others (pos + used.length)) state.slots
  rw [behindSize, List.append_assoc, Step.bind_of_ok (front _)]
  simp only
  rw [Step.bind_of_ok (middle _), Step.bind_of_ok (checked _), List.length_append, Nat.add_assoc]
  rfl

/-! ## Intra frames -/

/-- Where `step` succeeds, it succeeds in the same way over any slots. -/
def Blind (step : ReadFrame α) : Prop :=
  ∀ reader slots value behind, step ⟨reader, slots⟩ = .ok value behind →
    ∀ other, ∃ kept, step ⟨reader, other⟩ = .ok value ⟨behind.reader, kept⟩

namespace Blind

protected theorem pure (value : α) : Blind (pure value : ReadFrame α) := by
  intro reader slots found behind run other
  cases run
  exact ⟨other, rfl⟩

protected theorem throw (cause : Failure ObuError) : Blind (throw cause : ReadFrame α) := by
  intro reader slots found behind run
  cases run

protected theorem bind {step : ReadFrame α} {next : α → ReadFrame β} (first : Blind step)
    (second : ∀ value, Blind (next value)) : Blind (step >>= next) := by
  intro reader slots result behind run other
  obtain ⟨value, between, run₁, run₂⟩ := Step.bind_eq_ok.1 run
  obtain ⟨kept, again₁⟩ := first _ _ _ _ run₁ other
  obtain ⟨last, again₂⟩ := second value _ _ _ _ run₂ kept
  exact ⟨last, by rw [Step.bind_of_ok again₁, again₂]⟩

protected theorem ite {step other : ReadFrame α} {p : Prop} [Decidable p] (first : Blind step)
    (second : Blind other) : Blind (if p then step else other) := by
  split
  · exact first
  · exact second

protected theorem lift (step : Read α) : Blind (liftM step) := by
  intro reader slots value behind run other
  obtain ⟨read, -⟩ := lift_eq_ok.1 run
  exact ⟨other, lift_eq_ok.2 ⟨read, rfl⟩⟩

protected theorem modifySlots (change : RefSlots → RefSlots) : Blind (modifySlots change) := by
  intro reader slots value behind run other
  cases run
  exact ⟨change other, rfl⟩

end Blind

/-- Slots can expire, whatever they remember. -/
theorem expire_succeeds {ids : FrameIds} (inRange : ids.InRange) {current : Nat}
    (known : current < 2 ^ ids.idLength) (slots : RefSlots) :
    ∃ kept, RefSlots.expire ids current slots = .ok kept := by
  have gives : Checked.Gives (RefSlots.expire ids current slots) fun kept =>
      ∀ slot ∈ kept, True :=
    .mapM_vector fun slot _ => (RefSlots.inWindow_gives inRange known slot.frameId).bind
      fun _ _ => .pure trivial
  exact gives.imp fun _ known => known.1

/-- Which slots expire is no part of what is read. -/
theorem frameId_blind {sequence : SequenceHeader} (inRange : sequence.InRange) :
    Blind (frameId sequence) := by
  cases present : sequence.frameIds with
  | none =>
    simp only [frameId, present]
    exact .pure 0
  | some ids =>
    intro reader slots value behind run other
    simp only [frameId, present] at run ⊢
    obtain ⟨id, between, first, run⟩ := Step.bind_eq_ok.1 run
    obtain ⟨read, -⟩ := lift_eq_ok.1 first
    have known : id < 2 ^ ids.idLength := ((Read.bits_decodes _).sound read).1.2
    obtain ⟨kept, expired⟩ := expire_succeeds (inRange.frameIds ids present) known other
    obtain ⟨own, same⟩ := expire_succeeds (inRange.frameIds ids present) known between.slots
    have again : (liftM (Read.bits ids.idLength) : ReadFrame Nat) ⟨reader, other⟩ =
        .ok id ⟨between.reader, other⟩ := lift_eq_ok.2 ⟨read, rfl⟩
    refine ⟨kept, ?_⟩
    rw [Step.bind_of_ok again]
    obtain ⟨_, _, second, run⟩ := Step.bind_eq_ok.1 run
    cases second
    rw [same] at run
    cases run
    show (liftM (RefSlots.expire ids value other) >>= _ : ReadFrame Nat) _ = _
    rw [expired]
    rfl

theorem refreshFlags_blind (frame : FrameKind) : Blind (refreshFlags frame) :=
  .ite (.pure _) ((Blind.lift _).bind fun _ => .ite ((Blind.throw _).bind fun _ => .pure _)
    (.pure _))

theorem slotHints_blind (bits count i : Nat) : Blind (slotHints bits count i) := by
  induction count generalizing i with
  | zero => exact .pure _
  | succ count ih => exact (Blind.lift _).bind fun _ => (Blind.modifySlots _).bind fun _ => ih _

/-- What stands in front of the size of an intra frame refers to no other frame. -/
theorem ahead_blind {sequence : SequenceHeader} (inRange : sequence.InRange) (header : ObuHeader)
    {frame : FrameKind} (intra : frame.type.isIntra = true) :
    Blind (ahead sequence header frame) := by
  unfold ahead
  simp only [intra, if_true]
  exact (Blind.modifySlots _).bind fun _ => (Blind.lift _).bind fun _ =>
    (frameId_blind inRange).bind fun _ => (Blind.lift _).bind fun _ => (Blind.lift _).bind fun _ =>
      (Blind.lift _).bind fun _ => (Blind.lift _).bind fun _ =>
        (refreshFlags_blind frame).bind fun _ => (slotHints_blind _ _ _).bind fun _ => .pure _

/-- An intra frame refers to no other frame. -/
theorem ahead_intra {sequence : SequenceHeader} {header : ObuHeader} {frame : FrameKind}
    {state behind : FrameState} {found : Ahead} (intra : frame.type.isIntra = true)
    (run : ahead sequence header frame state = .ok found behind) :
    found.primaryRef = FrameHeader.noPrimaryRef ∧ found.inter = none := by
  simp only [ahead, intra, if_true, primaryRef, Bool.true_or] at run
  obtain ⟨_, _, -, run⟩ := Step.bind_eq_ok.1 run
  obtain ⟨_, _, -, run⟩ := Step.bind_eq_ok.1 run
  obtain ⟨_, _, -, run⟩ := Step.bind_eq_ok.1 run
  obtain ⟨_, _, -, run⟩ := Step.bind_eq_ok.1 run
  obtain ⟨_, _, -, run⟩ := Step.bind_eq_ok.1 run
  obtain ⟨_, _, none, run⟩ := Step.bind_eq_ok.1 run
  cases none
  obtain ⟨_, _, -, run⟩ := Step.bind_eq_ok.1 run
  obtain ⟨_, _, -, run⟩ := Step.bind_eq_ok.1 run
  obtain ⟨_, _, -, run⟩ := Step.bind_eq_ok.1 run
  cases run
  exact ⟨rfl, rfl⟩

theorem behindSize_blind (sequence : SequenceHeader) (header : ObuHeader) (frame : FrameKind)
    {ahead : Ahead} (none : ahead.primaryRef = FrameHeader.noPrimaryRef) (coded : CodedSize) :
    Blind (behindSize sequence header frame ahead coded) := by
  refine (Blind.lift _).bind fun found => (Blind.lift _).bind fun _ => ?_
  have unchecked : checkPrimaryRef ahead.primaryRef found.2.references = pure () := by
    rw [checkPrimaryRef, if_neg fun other => other none]
  rw [unchecked]
  exact (Blind.pure _).bind fun _ => .pure _

theorem newFrame_blind {sequence : SequenceHeader} (inRange : sequence.InRange)
    (header : ObuHeader) {frame : FrameKind} (intra : frame.type.isIntra = true) :
    Blind (newFrame sequence header frame) := by
  rw [newFrame, uncutFrame_eq]
  refine Blind.bind ?_ fun uncut => (Blind.lift _).bind fun _ => .pure _
  intro reader slots found behind run other
  obtain ⟨said, between, first, run⟩ := Step.bind_eq_ok.1 run
  obtain ⟨none, -⟩ := ahead_intra intra first
  obtain ⟨kept, again⟩ := ahead_blind inRange header intra _ _ _ _ first other
  rw [Step.bind_of_ok again]
  exact ((Blind.lift _).bind fun coded => behindSize_blind sequence header frame none coded)
    _ _ _ _ run kept

/-! ## The whole header -/

/-- Reads what kind of frame a header brings, if it does not show one that exists. -/
def brought (sequence : SequenceHeader) : Read (Option FrameKind) := do
  if sequence.reducedStillPicture then return some stillKind
  else if ← Read.bit then return none
  else return some (← kind sequence)

theorem frameHeader_eq (sequence : SequenceHeader) (header : ObuHeader) :
    frameHeader sequence header = liftM (brought sequence) >>= fun
      | some frame => newFrame sequence header frame
      | none =>
        if header.type = .frame then throw (.raised (.frame .showExistingInFrame))
        else existing sequence header := by
  unfold frameHeader brought
  cases sequence.reducedStillPicture with
  | true => rfl
  | false =>
    simp only [Bool.false_eq_true, if_false, liftM_bind, bind_assoc]
    refine bind_congr fun shown => ?_
    cases shown with
    | true => rfl
    | false => simp only [Bool.false_eq_true, if_false, liftM_bind, bind_assoc, liftM_pure, pure_bind]

theorem brought_movable (sequence : SequenceHeader) : Read.Movable (brought sequence) := by
  have time (shown : Bool) : Read.Movable (presentationTime sequence shown) :=
    .ite ((bits_movable _).bind fun _ => .pure _) (.pure _)
  have kind : Read.Movable (kind sequence) :=
    (bits_movable 2).bind fun _ => bit_movable.bind fun _ => (time _).bind fun _ =>
      (bitUnless_movable _).bind fun _ => (bitUnless_movable _).bind fun _ => .pure _
  exact .ite (.pure _) (bit_movable.bind fun _ => .ite (.pure _) (kind.bind fun _ => .pure _))

/-- A header that brings a frame is that of a new frame. -/
theorem frameHeader_brings {sequence : SequenceHeader} {header : ObuHeader}
    {state behind : FrameState} {found : FrameHeader}
    (run : frameHeader sequence header state = .ok found behind)
    (own : found.showExisting = false) :
    ∃ frame reader, brought sequence state.reader = .ok (some frame) reader ∧
      newFrame sequence header frame ⟨reader, state.slots⟩ = .ok found behind := by
  rw [frameHeader_eq] at run
  obtain ⟨said, ⟨reader, slots⟩, first, run⟩ := Step.bind_eq_ok.1 run
  obtain ⟨read, rfl⟩ := lift_eq_ok.1 first
  cases said with
  | some frame => exact ⟨frame, reader, read, run⟩
  | none =>
    by_cases whole : header.type = .frame
    · simp only [if_pos whole] at run
      cases run
    · simp only [if_neg whole] at run
      obtain ⟨_, _, _, run⟩ := Step.bind_eq_ok.1 run
      obtain ⟨_, _, _, run⟩ := Step.bind_eq_ok.1 run
      obtain ⟨_, _, _, run⟩ := Step.bind_eq_ok.1 run
      obtain ⟨_, _, _, run⟩ := Step.bind_eq_ok.1 run
      obtain ⟨_, _, _, run⟩ := Step.bind_eq_ok.1 run
      cases run
      cases own

theorem frameHeader_of_brought {sequence : SequenceHeader} {header : ObuHeader}
    {reader between : BitReader} {slots : RefSlots} {frame : FrameKind}
    (read : brought sequence reader = .ok (some frame) between) :
    frameHeader sequence header ⟨reader, slots⟩ =
      newFrame sequence header frame ⟨between, slots⟩ := by
  have first : (liftM (brought sequence) : ReadFrame _) ⟨reader, slots⟩ =
      .ok (some frame) ⟨between, slots⟩ := lift_eq_ok.2 ⟨read, rfl⟩
  rw [frameHeader_eq, Step.bind_of_ok first]

/-- A new frame is of the kind that was announced. -/
theorem newFrame_kind {sequence : SequenceHeader} {header : ObuHeader} {frame : FrameKind}
    {state behind : FrameState} {found : FrameHeader}
    (run : newFrame sequence header frame state = .ok found behind) :
    found.toFrameKind = frame := by
  rw [newFrame, uncutFrame_eq] at run
  obtain ⟨uncut, _, first, run⟩ := Step.bind_eq_ok.1 run
  obtain ⟨_, _, _, run⟩ := Step.bind_eq_ok.1 run
  obtain ⟨_, _, _, first⟩ := Step.bind_eq_ok.1 first
  obtain ⟨_, _, _, first⟩ := Step.bind_eq_ok.1 first
  cases run
  exact (behindSize_sound first).1

/-! ## Other OBU headers -/

section

variable {sequence : SequenceHeader} {header again : ObuHeader}

/-- Of the header of its OBU, a frame header depends on the layers. -/
theorem uncutFrame_again (place : ObuHeader) (layers : again.extension = header.extension)
    (frame : FrameKind) :
    uncutFrame { sequence with header := place } again frame =
      (fun found => { found with header := again }) <$> uncutFrame sequence header frame := by
  have times : bufferRemovalTimes { sequence with header := place } again =
      bufferRemovalTimes sequence header := by
    simp only [bufferRemovalTimes, ObuHeader.temporalId, ObuHeader.spatialId, layers]
  have same : ahead { sequence with header := place } again frame =
      ahead sequence header frame := by
    rw [ahead, times]
    rfl
  have behind (ahead : Ahead) (coded : CodedSize) :
      behindSize { sequence with header := place } again frame ahead coded =
        (fun found => { found with header := again }) <$>
          behindSize sequence header frame ahead coded := by
    simp only [behindSize, map_bind, map_pure]
    rfl
  simp only [uncutFrame_eq, same, map_bind, behind]
  rfl

theorem newFrame_again (place : ObuHeader) (layers : again.extension = header.extension)
    (frame : FrameKind) :
    newFrame { sequence with header := place } again frame =
      (fun found => { found with header := again }) <$> newFrame sequence header frame := by
  simp only [newFrame, uncutFrame_again place layers, map_bind, map_pure, bind_map_left]
  rfl

end

end ReadFrame

/-! ## A header in its payload -/

namespace FrameHeader

variable {sequence : SequenceHeader} {header : ObuHeader} {payload : Bytes} {slots kept : RefSlots}
  {frame : FrameHeader}

/-- A payload that brings a frame brings one of its kind. -/
theorem parse_brings (parsed : parse sequence header payload slots = .ok frame kept)
    (own : frame.showExisting = false) :
    ∃ reader behind,
      ReadFrame.brought sequence (.ofBytes payload) = .ok (some frame.toFrameKind) reader ∧
      ReadFrame.newFrame sequence header frame.toFrameKind ⟨reader, slots⟩ = .ok frame behind ∧
      behind.slots = kept := by
  rw [parse] at parsed
  cases run : ReadFrame.frameHeader sequence header ⟨.ofBytes payload, slots⟩ with
  | error cause state =>
    rw [run] at parsed
    cases parsed
  | ok found state =>
    rw [run] at parsed
    cases parsed
    obtain ⟨kind, reader, read, new⟩ := ReadFrame.frameHeader_brings run own
    obtain rfl := ReadFrame.newFrame_kind new
    exact ⟨reader, state, read, new, rfl⟩

theorem parse_of_brought {kind : FrameKind} {reader : BitReader} {behind : FrameState}
    (read : ReadFrame.brought sequence (.ofBytes payload) = .ok (some kind) reader)
    (new : ReadFrame.newFrame sequence header kind ⟨reader, slots⟩ = .ok frame behind) :
    parse sequence header payload slots = .ok frame behind.slots := by
  rw [parse, ReadFrame.frameHeader_of_brought read, new]

/-- A header that brings a frame brings it in any OBU of the same layers, and for a sequence header
    in any OBU. -/
theorem parse_again {again : ObuHeader} (place : ObuHeader)
    (layers : again.extension = header.extension)
    (parsed : parse sequence header payload slots = .ok frame kept)
    (own : frame.showExisting = false) :
    parse { sequence with header := place } again payload slots =
      .ok { frame with header := again } kept := by
  obtain ⟨reader, behind, read, new, rfl⟩ := parse_brings parsed own
  have same : ReadFrame.brought { sequence with header := place } = ReadFrame.brought sequence :=
    rfl
  refine parse_of_brought (same ▸ read) ?_
  rw [ReadFrame.newFrame_again place layers]
  exact Step.map_eq_ok.2 ⟨frame, new, rfl⟩

/-- The header of an intra frame is read alike over any slots. -/
theorem parse_of_intra (inRange : sequence.InRange)
    (parsed : parse sequence header payload slots = .ok frame kept)
    (own : frame.showExisting = false) (intra : frame.type.isIntra = true) (other : RefSlots) :
    ∃ last, parse sequence header payload other = .ok frame last := by
  obtain ⟨reader, behind, read, new, -⟩ := parse_brings parsed own
  obtain ⟨last, again⟩ := ReadFrame.newFrame_blind inRange header intra _ _ _ _ new other
  exact ⟨_, parse_of_brought read again⟩

end FrameHeader

end Av1Tiling
