import Av1Tiling.Frame.Header

/-!
# Reading frame headers

A header is read in the order of its bits, over a state of the reader and the reference slots. What
a step has done to the slots stays also where a later step fails.
-/

namespace Av1Tiling

/-- The reader of a frame header, and the slots as the header leaves them. -/
structure FrameState where
  reader : BitReader
  slots : RefSlots
  deriving Repr, DecidableEq

/-- A step of reading a frame header. -/
abbrev ReadFrame := EStateM (Failure ObuError) FrameState

/-- Reading bits is a step that leaves the slots alone. -/
instance : MonadLift Read ReadFrame where
  monadLift step := fun state =>
    match step state.reader with
    | .ok value reader => .ok value { state with reader }
    | .error cause reader => .error (cause.map .stream) { state with reader }

/-- A frame error is one of the errors of OBUs. -/
instance : MonadLift (Except FrameError) (Except (Failure ObuError)) where
  monadLift
    | .ok value => .ok value
    | .error error => .error (.raised (.frame error))

namespace ReadFrame

/-- The slots as they are now. -/
def slots : ReadFrame RefSlots :=
  return (← get).slots

/-- Changes the slots. -/
def modifySlots (change : RefSlots → RefSlots) : ReadFrame Unit :=
  modify fun state => { state with slots := change state.slots }

/-- Reads one of the eight slots. -/
def slotIndex : Read (Fin 8) := do
  return Fin.ofNat 8 (← Read.bits 3)

/-- Frames say when they are presented. -/
def presentationTimePresent (sequence : SequenceHeader) : Bool :=
  sequence.decoderModel.isSome && !sequence.equalPictureInterval

/-- Reads when a shown frame is presented. -/
def presentationTime (sequence : SequenceHeader) (shown : Bool) : Read Unit := do
  if shown && presentationTimePresent sequence then
    let _ ← Read.bits ((sequence.decoderModel.map (·.framePresentationTimeLength)).getD 0)

/-! ## A frame that exists already -/

/-- Reads the identifier of the shown frame, where frames have one, and checks it. -/
def checkDisplayId (sequence : SequenceHeader) (shownSlot : Fin 8) (slot : RefSlot) :
    ReadFrame Unit := do
  if let some ids := sequence.frameIds then
    let id ← Read.bits ids.idLength
    if id ≠ slot.frameId then throw (.raised (.frame (.displayIdMismatch id shownSlot)))

/-- A shown frame has to be there and to be meant for it. -/
def checkShowable (shownSlot : Fin 8) (slot : RefSlot) : ReadFrame Unit :=
  if !slot.valid || !slot.showable then throw (.raised (.frame (.slotNotShowable shownSlot)))
  else return

/-- The header that shows the frame in a slot. -/
def shown (header : ObuHeader) (shownSlot : Fin 8) (slot : RefSlot) : FrameHeader where
  header := header
  showExisting := true
  shownSlot := shownSlot
  type := slot.type
  showFrame := true
  showable := false
  errorResilient := false
  disableCdfUpdate := false
  screenContentTools := false
  forceIntegerMv := false
  frameId := slot.frameId
  sizeOverride := false
  orderHint := slot.orderHint
  primaryRef := FrameHeader.noPrimaryRef
  refreshFlags := if slot.type = .key then FrameHeader.allSlots else 0
  allowIntrabc := false
  disableFrameEndUpdateCdf := true
  size := slot.size
  sizeSpan := none
  renderSpan := none
  toPrediction := .none
  layout := none
  layoutSpan := none

/-- Reads which frame is shown; the rest of the header follows from its slot. -/
def existing (sequence : SequenceHeader) (header : ObuHeader) : ReadFrame FrameHeader := do
  let shownSlot ← slotIndex
  presentationTime sequence true
  let slot := (← slots)[shownSlot]
  checkDisplayId sequence shownSlot slot
  checkShowable shownSlot slot
  return shown header shownSlot slot

/-! ## A new frame -/

/-- Frames of the kind use no state of other frames, without saying so. -/
def alwaysResilient (type : FrameType) (showFrame : Bool) : Bool :=
  type == .switch || type == .key && showFrame

/-- Reads a bit, unless it is known. -/
def bitUnless (known : Option Bool) : Read Bool :=
  match known with
  | some value => return value
  | none => Read.bit

/-- Reads what kind of frame begins. -/
def kind (sequence : SequenceHeader) : Read FrameKind := do
  let type := FrameType.ofCode (← Read.bits 2)
  let showFrame ← Read.bit
  presentationTime sequence showFrame
  let showable ← bitUnless (if showFrame then some (type != .key) else none)
  let errorResilient ← bitUnless (if alwaysResilient type showFrame then some true else none)
  return { type, showFrame, showable, errorResilient }

/-- The frame of a reduced still picture. -/
def stillKind : FrameKind where
  type := .key
  showFrame := true
  showable := false
  errorResilient := true

/-- Makes a choice that the sequence may leave to the frame. -/
def choice (sequenceChoice : Nat) : Read Bool :=
  if sequenceChoice = InterTools.perFrame then Read.bit else return sequenceChoice != 0

/-- Makes the choice of whole motion vectors, which takes screen content tools. -/
def integerMv (sequence : SequenceHeader) (screenContentTools : Bool) : Read Bool :=
  if screenContentTools then choice sequence.inter.integerMv else return false

/-- Reads the tools of a frame. Intra frames always have whole motion vectors. -/
def tools (sequence : SequenceHeader) (type : FrameType) : Read FrameTools := do
  let disableCdfUpdate ← Read.bit
  let screenContentTools ← choice sequence.inter.screenContentTools
  let integerMv ← integerMv sequence screenContentTools
  return { disableCdfUpdate, screenContentTools, forceIntegerMv := integerMv || type.isIntra }

/-- Reads the identifier of the frame, and lets slots expire that it cannot refer to. -/
def frameId (sequence : SequenceHeader) : ReadFrame Nat := do
  match sequence.frameIds with
  | none => return 0
  | some ids =>
    let id ← Read.bits ids.idLength
    let kept ← RefSlots.expire ids id (← slots)
    modifySlots fun _ => kept
    return id

/-- Skips when buffers are removed, for each operating point that the frame belongs to. -/
def bufferRemovalTimes (sequence : SequenceHeader) (header : ObuHeader) : Read Unit := do
  if let some model := sequence.decoderModel then
    if ← Read.bit then
      for point in sequence.operatingPoints do
        if point.parameters.isSome then
          if ← point.takesIn header.temporalId header.spatialId then
            let _ ← Read.bits model.bufferRemovalTimeLength

/-- Reads the slots that the frame goes to. -/
def refreshFlags (frame : FrameKind) : ReadFrame Nat := do
  if alwaysResilient frame.type frame.showFrame then
    return FrameHeader.allSlots
  else
    let flags ← Read.bits 8
    if frame.type = .intraOnly ∧ flags = FrameHeader.allSlots then
      throw (.raised (.frame .intraOnlyRefreshesAll))
    return flags

/-- Reads the order hints of slots from `i` on. A slot with another hint has lost its frame. -/
def slotHints (bits : Nat) : (count i : Nat) → ReadFrame Unit
  | 0, _ => return
  | count + 1, i => do
    let hint ← Read.bits bits
    modifySlots fun slots => slots.mapIdx fun k slot =>
      if k = i ∧ slot.orderHint ≠ hint then { RefSlot.empty with orderHint := hint } else slot
    slotHints bits count (i + 1)

/-- The order hints of the slots are coded. -/
def slotHintsPresent (sequence : SequenceHeader) (frame : FrameKind) (refreshFlags : Nat) : Bool :=
  (!frame.type.isIntra || refreshFlags != FrameHeader.allSlots) && frame.errorResilient &&
    sequence.inter.orderHint

/-! ## Sizes -/

/-- Reads the denominator of super-resolution. -/
def superresDenom (sequence : SequenceHeader) : Read Nat := do
  if ← Read.bitIf sequence.superres then return (← Read.bits 3) + 9 else return FrameSize.superresNum

/-- Reads how much narrower the frame is in front of super-resolution, and yields the denominator
    and the width. -/
def superres (sequence : SequenceHeader) (upscaledWidth : Nat) : Read (Nat × Nat) := do
  let denom ← superresDenom sequence
  let width ← FrameSize.downscaledWidth upscaledWidth denom
  return (denom, width)

/-- Reads width and height, where they are not those of the sequence. -/
def dimensions (sequence : SequenceHeader) (sizeOverride : Bool) :
    Read ((Nat × Nat) × Option BitSpan) := do
  if sizeOverride then
    let (size, span) ← Read.spanned do
      let width := (← Read.bits sequence.dimensions.widthBits) + 1
      let height := (← Read.bits sequence.dimensions.heightBits) + 1
      return (width, height)
    return (size, some span)
  else
    return ((sequence.dimensions.maxWidth, sequence.dimensions.maxHeight), none)

/-- Reads the size at which the frame is to be shown, that of the frame if it says nothing else. -/
def renderSize (width height : Nat) : Read (Nat × Nat) := do
  if ← Read.bit then
    let renderWidth := (← Read.bits 16) + 1
    let renderHeight := (← Read.bits 16) + 1
    return (renderWidth, renderHeight)
  else
    return (width, height)

/-- Reads a size that is coded in the header. -/
def codedSize (sequence : SequenceHeader) (sizeOverride : Bool) : Read CodedSize := do
  let ((upscaledWidth, frameHeight), sizeSpan) ← dimensions sequence sizeOverride
  let (superresDenom, frameWidth) ← superres sequence upscaledWidth
  let ((renderWidth, renderHeight), renderSpan) ←
    Read.spanned (renderSize upscaledWidth frameHeight)
  return {
    size := { upscaledWidth, frameWidth, frameHeight, renderWidth, renderHeight, superresDenom }
    sizeSpan, renderSpan := some renderSpan }

/-- Reads a bit per reference until one says that the frame has the size of that reference. -/
def foundReference : (references : List (Fin 8)) → Read (Option (Fin 8))
  | [] => return none
  | slot :: rest => do
    if ← Read.bit then return some slot else foundReference rest

/-- Reads a size that may be that of a reference. -/
def sizeWithReferences (sequence : SequenceHeader) (sizeOverride : Bool) (slots : RefSlots)
    (references : RefIndices) : Read CodedSize := do
  match ← foundReference references.toList with
  | none => codedSize sequence sizeOverride
  | some slot =>
    let size := slots[slot].size
    let (superresDenom, frameWidth) ← superres sequence size.upscaledWidth
    return { size := { size with frameWidth, superresDenom }, sizeSpan := none, renderSpan := none }

/-! ## References -/

/-- The distances of the slots to a frame with the given order hint. -/
def distances (sequence : SequenceHeader) (slots : RefSlots) (orderHint : Nat) :
    Except Fault (Vector Int 8) :=
  slots.mapM fun slot => relativeDistance sequence.inter.orderHintBits slot.orderHint orderHint

/-- Reads references by short signalling, if the header uses it. -/
def shortSignaling (sequence : SequenceHeader) (slots : RefSlots) (orderHint : Nat) :
    ReadFrame (Option RefIndices) := do
  if ← Read.bitIf sequence.inter.orderHint then
    let lastSlot ← slotIndex
    let goldenSlot ← slotIndex
    let distance ← distances sequence slots orderHint
    return some (← References.complete (distance[·]) lastSlot goldenSlot)
  else
    return none

/-- Reads how far back a reference lies, and checks that its slot holds that frame. -/
def checkFrameId (ids : FrameIds) (frameId : Nat) (slots : RefSlots) (reference : Nat)
    (slot : Fin 8) : ReadFrame Unit := do
  let delta ← Checked.word ((← Read.bits ids.deltaLength) + 1)
  let range ← Checked.shift 32 ids.idLength
  let expected := (← Checked.sub (← Checked.word (frameId + range)) delta) % range
  let actual := slots[slot].frameId
  if expected ≠ actual then throw (.raised (.frame (.frameIdMismatch reference expected actual)))

/-- Reads the slot of a reference, unless short signalling has chosen it. -/
def referenceSlot (short : Option RefIndices) (reference : Fin 7) : Read (Fin 8) :=
  match short with
  | some chosen => return chosen.get reference
  | none => slotIndex

/-- Checks that the slot of a reference holds the frame meant, where frames have identifiers. -/
def checkReference (sequence : SequenceHeader) (frameId : Nat) (slots : RefSlots)
    (reference : Nat) (slot : Fin 8) : ReadFrame Unit :=
  match sequence.frameIds with
  | some ids => checkFrameId ids frameId slots reference slot
  | none => return

/-- Reads the seven references. -/
def references (sequence : SequenceHeader) (frameId : Nat) (slots : RefSlots)
    (short : Option RefIndices) : ReadFrame RefIndices :=
  (Vector.finRange 7).mapM fun (reference : Fin 7) => do
    let slot ← referenceSlot short reference
    checkReference sequence frameId slots reference slot
    return slot

/-- In place of a code of the interpolation filter: blocks choose it. -/
def switchableFilter : Nat := 4

/-- Reads the interpolation filter. -/
def interpolationFilter : Read Nat := do
  if ← Read.bit then return switchableFilter else Read.bits 2

/-! ## The whole header -/

/-- Reads the size of an intra frame, and whether it copies blocks of itself. -/
def intra (sequence : SequenceHeader) (tools : FrameTools) (sizeOverride : Bool) :
    Read (CodedSize × Bool) := do
  let coded ← codedSize sequence sizeOverride
  let allowIntrabc ←
    Read.bitIf (tools.screenContentTools && coded.size.upscaledWidth == coded.size.frameWidth)
  return (coded, allowIntrabc)

/-- Reads the size of an inter frame, which may be that of a reference. -/
def interSize (sequence : SequenceHeader) (frame : FrameKind) (sizeOverride : Bool)
    (slots : RefSlots) (references : RefIndices) : Read CodedSize :=
  if sizeOverride && !frame.errorResilient then
    sizeWithReferences sequence sizeOverride slots references
  else
    codedSize sequence sizeOverride

/-- Reads the size of an inter frame, and what it takes from other frames. -/
def inter (sequence : SequenceHeader) (frame : FrameKind) (tools : FrameTools)
    (frameId orderHint : Nat) (sizeOverride : Bool) : ReadFrame (CodedSize × Prediction) := do
  let slots ← slots
  let short ← shortSignaling sequence slots orderHint
  let references ← references sequence frameId slots short
  let coded ← interSize sequence frame sizeOverride slots references
  let highPrecisionMv ← Read.bitIf !tools.forceIntegerMv
  let interpolationFilter ← interpolationFilter
  let motionModeSwitchable ← Read.bit
  let useRefFrameMvs ← Read.bitIf (!frame.errorResilient && sequence.inter.refFrameMvs)
  return (coded, {
    shortSignaling := short.isSome, references, highPrecisionMv, interpolationFilter
    motionModeSwitchable, useRefFrameMvs })

/-- The slot of the primary reference has to hold a frame. -/
def checkPrimaryRef (primaryRef : Nat) (references : RefIndices) : ReadFrame Unit := do
  if primaryRef ≠ FrameHeader.noPrimaryRef then
    match references.toList[primaryRef]? with
    | none => throw (.fault (.outsideBuffer primaryRef (primaryRef + 1) 7))
    | some slot =>
      unless (← slots)[slot].valid do throw (.raised (.frame (.primarySlotInvalid slot)))

/-- Reads how the frame is cut into tiles. -/
def tileInfo (sequence : SequenceHeader) (size : FrameSize) : Read (TileLayout × BitSpan) := do
  let grid ← SuperblockGrid.checked size.frameWidth size.frameHeight sequence.largeSuperblocks
  Read.spanned (TileLayout.read grid)

/-- A shown key frame is the first of those that may be used. -/
def begin (frame : FrameKind) : ReadFrame Unit :=
  modifySlots fun slots =>
    if frame.type = .key ∧ frame.showFrame then slots.invalidate else slots

/-- Reads the reference whose state carries over. -/
def primaryRef (frame : FrameKind) : Read Nat :=
  if frame.type.isIntra || frame.errorResilient then return FrameHeader.noPrimaryRef
  else Read.bits 3

/-- Reads the size of a frame, whether it copies blocks of itself, and what it takes from others. -/
def content (sequence : SequenceHeader) (frame : FrameKind) (tools : FrameTools)
    (frameId orderHint : Nat) (sizeOverride : Bool) :
    ReadFrame (CodedSize × Bool × Prediction) := do
  if frame.type.isIntra then
    let (coded, allowIntrabc) ← intra sequence tools sizeOverride
    return (coded, allowIntrabc, Prediction.none)
  else
    let (coded, prediction) ← inter sequence frame tools frameId orderHint sizeOverride
    return (coded, false, prediction)

/-- Reads the header of a new frame of the given kind, up to its tiles. -/
def uncutFrame (sequence : SequenceHeader) (header : ObuHeader) (frame : FrameKind) :
    ReadFrame FrameHeader := do
  let reduced := sequence.reducedStillPicture
  begin frame
  let tools ← tools sequence frame.type
  let frameId ← frameId sequence
  let sizeOverride ←
    bitUnless (if frame.type = .switch then some true else if reduced then some false else none)
  let orderHint ← Read.bits sequence.inter.orderHintBits
  let primaryRef ← primaryRef frame
  bufferRemovalTimes sequence header
  let refreshFlags ← refreshFlags frame
  slotHints sequence.inter.orderHintBits
    (if slotHintsPresent sequence frame refreshFlags then 8 else 0) 0
  let (coded, allowIntrabc, prediction) ←
    content sequence frame tools frameId orderHint sizeOverride
  let disableFrameEndUpdateCdf ←
    bitUnless (if reduced || tools.disableCdfUpdate then some true else none)
  checkPrimaryRef primaryRef prediction.references
  return {
    frame, tools, coded, prediction with
    header, showExisting := false, shownSlot := 0, frameId, sizeOverride, orderHint, primaryRef
    refreshFlags, allowIntrabc, disableFrameEndUpdateCdf, layout := none, layoutSpan := none }

/-- Reads the header of a new frame of the given kind. -/
def newFrame (sequence : SequenceHeader) (header : ObuHeader) (frame : FrameKind) :
    ReadFrame FrameHeader := do
  let uncut ← uncutFrame sequence header frame
  let (layout, layoutSpan) ← tileInfo sequence uncut.size
  return { uncut with layout := some layout, layoutSpan := some layoutSpan }

/-- Reads a frame header. A frame OBU must bring a frame of its own. -/
def frameHeader (sequence : SequenceHeader) (header : ObuHeader) : ReadFrame FrameHeader := do
  if sequence.reducedStillPicture then
    newFrame sequence header stillKind
  else if ← Read.bit then
    if header.type = .frame then throw (.raised (.frame .showExistingInFrame))
    else existing sequence header
  else
    newFrame sequence header (← kind sequence)

end ReadFrame

/-- Reads the frame header in `payload`, over the slots. -/
def FrameHeader.parse (sequence : SequenceHeader) (header : ObuHeader) (payload : Bytes) :
    EStateM (Failure ObuError) RefSlots FrameHeader := fun slots =>
  match ReadFrame.frameHeader sequence header { reader := .ofBytes payload, slots } with
  | .ok frame state => .ok frame state.slots
  | .error cause state => .error cause state.slots

end Av1Tiling
