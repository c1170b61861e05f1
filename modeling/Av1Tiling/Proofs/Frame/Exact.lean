import Av1Tiling.Frame.Reading
import Av1Tiling.Proofs.Bits.Numbers

/-!
# What a frame header depends on

A step of reading a frame header that succeeds depends on the slots, on where it starts and on the
bits that it uses, and on nothing behind them (`ReadFrame.Exact`). Every step in front of the tile
info is of this kind.
-/

namespace Av1Tiling.ReadFrame

variable {α β : Type}

/-- At bit `pos` and over `slots`, `step` yields `value` from exactly the bits `used` and leaves the
    slots `kept`, whatever follows the bits. -/
def Yields (step : ReadFrame α) (pos : Nat) (slots : RefSlots) (used : Bits) (value : α)
    (kept : RefSlots) : Prop :=
  ∀ rest, step ⟨⟨pos, used ++ rest⟩, slots⟩ = .ok value ⟨⟨pos + used.length, rest⟩, kept⟩

/-- Where `step` succeeds, it has used some bits and has looked at nothing behind them. -/
def Exact (step : ReadFrame α) : Prop :=
  ∀ state value behind, step state = .ok value behind →
    ∃ used, state.reader.Advances used behind.reader ∧
      Yields step state.reader.pos state.slots used value behind.slots

/-- Reading bits leaves the slots alone. -/
theorem lift_eq_ok {step : Read α} {state behind : FrameState} {value : α} :
    (liftM step : ReadFrame α) state = .ok value behind ↔
      step state.reader = .ok value behind.reader ∧ behind.slots = state.slots := by
  obtain ⟨reader, slots⟩ := behind
  simp only [liftM, monadLift, MonadLift.monadLift]
  cases step state.reader with
  | error cause last => simp
  | ok found last => simp [and_assoc, @eq_comm _ slots]

namespace Yields

variable {step : ReadFrame α} {pos : Nat} {slots between kept : RefSlots} {used more : Bits}
  {value : α}

protected theorem pure (value : α) (pos : Nat) (slots : RefSlots) :
    Yields (pure value) pos slots [] value slots :=
  fun _ => rfl

protected theorem bind {next : α → ReadFrame β} {result : β}
    (first : Yields step pos slots used value between)
    (second : Yields (next value) (pos + used.length) between more result kept) :
    Yields (step >>= next) pos slots (used ++ more) result kept := by
  intro rest
  rw [List.append_assoc, Step.bind_of_ok (first (more ++ rest)), second rest, List.length_append,
    Nat.add_assoc]

protected theorem lift {step : Read α} (yields : step.Yields pos used value) (slots : RefSlots) :
    Yields (liftM step) pos slots used value slots := by
  exact fun rest => lift_eq_ok.2 ⟨yields rest, rfl⟩

end Yields

namespace Exact

variable {step other : ReadFrame α}

protected theorem pure (value : α) : Exact (pure value) := by
  intro state result behind run
  cases run
  exact ⟨[], .refl _, .pure value _ _⟩

protected theorem throw (cause : Failure ObuError) : Exact (throw cause : ReadFrame α) := by
  intro state result behind run
  cases run

protected theorem bind {next : α → ReadFrame β} (first : Exact step)
    (second : ∀ value, Exact (next value)) : Exact (step >>= next) := by
  intro state result behind run
  obtain ⟨value, between, run₁, run₂⟩ := Step.bind_eq_ok.1 run
  obtain ⟨used, advances₁, yields₁⟩ := first _ _ _ run₁
  obtain ⟨more, advances₂, yields₂⟩ := second value _ _ _ run₂
  rw [advances₁.pos] at yields₂
  exact ⟨used ++ more, advances₁.trans advances₂, yields₁.bind yields₂⟩

protected theorem ite {p : Prop} [Decidable p] (first : Exact step) (second : Exact other) :
    Exact (if p then step else other) := by
  split
  · exact first
  · exact second

/-- A step that leaves the slots alone. -/
protected theorem lift {step : Read α} (exact : step.Exact) : Exact (liftM step) := by
  intro state value behind run
  obtain ⟨read, slots⟩ := lift_eq_ok.1 run
  obtain ⟨used, advances, yields⟩ := exact _ _ _ read
  rw [slots]
  exact ⟨used, advances, .lift yields _⟩

/-- A computation that reads nothing. -/
protected theorem liftFrame (result : Except FrameError α) :
    Exact (liftM result : ReadFrame α) := by
  cases result with
  | ok value => exact .pure value
  | error cause => exact .throw _

protected theorem liftFault (result : Except Fault α) : Exact (liftM result : ReadFrame α) := by
  cases result with
  | ok value => exact .pure value
  | error cause => exact .throw _

protected theorem slots : Exact slots := by
  intro state value behind run
  cases run
  exact ⟨[], .refl _, fun _ => rfl⟩

protected theorem modifySlots (change : RefSlots → RefSlots) : Exact (modifySlots change) := by
  intro state value behind run
  cases run
  exact ⟨[], .refl _, fun _ => rfl⟩

/-- A row of steps, one for each item. -/
protected theorem mapM {n : Nat} {each : α → ReadFrame β} (items : Vector α n)
    (exact : ∀ item, Exact (each item)) : Exact (items.mapM each) := by
  have row : ∀ items : List α, Exact (items.mapM each) := by
    intro items
    induction items with
    | nil => exact .pure _
    | cons item rest ih =>
      rw [List.mapM_cons]
      exact (exact item).bind fun _ => ih.bind fun _ => .pure _
  intro state found behind run
  obtain ⟨used, advances, yields⟩ := row items.toList _ _ _ (Step.mapM_vector_eq_ok.1 run)
  exact ⟨used, advances, fun rest => Step.mapM_vector_eq_ok.2 (yields rest)⟩

end Exact

/-! ## The steps in front of the tile info -/

open Read (bit_exact bits_exact)

theorem slotIndex_exact : Read.Exact slotIndex :=
  (bits_exact 3).bind fun _ => .pure _

theorem bitIf_exact (present : Bool) : Read.Exact (Read.bitIf present) :=
  .ite bit_exact (.pure false)

theorem bitUnless_exact (known : Option Bool) : Read.Exact (bitUnless known) := by
  cases known with
  | none => exact bit_exact
  | some value => exact .pure value

theorem presentationTime_exact (sequence : SequenceHeader) (shown : Bool) :
    Read.Exact (presentationTime sequence shown) :=
  .ite ((bits_exact _).bind fun _ => .pure _) (.pure _)

theorem kind_exact (sequence : SequenceHeader) : Read.Exact (kind sequence) :=
  (bits_exact 2).bind fun _ => bit_exact.bind fun _ => (presentationTime_exact _ _).bind fun _ =>
    (bitUnless_exact _).bind fun _ => (bitUnless_exact _).bind fun _ => .pure _

theorem choice_exact (sequenceChoice : Nat) : Read.Exact (choice sequenceChoice) :=
  .ite bit_exact (.pure _)

theorem tools_exact (sequence : SequenceHeader) (type : FrameType) :
    Read.Exact (tools sequence type) := by
  refine bit_exact.bind fun _ => (choice_exact _).bind fun screenContentTools => ?_
  have integer : Read.Exact (integerMv sequence screenContentTools) :=
    .ite (choice_exact _) (.pure _)
  exact integer.bind fun _ => .pure _

theorem superres_exact (sequence : SequenceHeader) (upscaledWidth : Nat) :
    Read.Exact (superres sequence upscaledWidth) := by
  refine Read.Exact.bind ?_ fun denom => (Read.Exact.liftFault _).bind fun _ => .pure _
  exact (bitIf_exact _).bind fun _ => .ite ((bits_exact 3).bind fun _ => .pure _) (.pure _)

theorem dimensions_exact (sequence : SequenceHeader) (sizeOverride : Bool) :
    Read.Exact (dimensions sequence sizeOverride) :=
  .ite
    ((Read.Exact.spanned ((bits_exact _).bind fun _ => (bits_exact _).bind fun _ => .pure _)).bind
      fun _ => .pure _)
    (.pure _)

theorem renderSize_exact (width height : Nat) : Read.Exact (renderSize width height) :=
  bit_exact.bind fun _ =>
    .ite ((bits_exact _).bind fun _ => (bits_exact _).bind fun _ => .pure _) (.pure _)

theorem codedSize_exact (sequence : SequenceHeader) (sizeOverride : Bool) :
    Read.Exact (codedSize sequence sizeOverride) :=
  (dimensions_exact sequence sizeOverride).bind fun _ => (superres_exact sequence _).bind fun _ =>
    (renderSize_exact _ _).spanned.bind fun _ => .pure _

theorem foundReference_exact (slots : List (Fin 8)) : Read.Exact (foundReference slots) := by
  induction slots with
  | nil => exact .pure _
  | cons slot rest ih => exact bit_exact.bind fun _ => .ite (.pure _) ih

theorem sizeWithReferences_exact (sequence : SequenceHeader) (sizeOverride : Bool)
    (slots : RefSlots) (references : RefIndices) :
    Read.Exact (sizeWithReferences sequence sizeOverride slots references) := by
  refine (foundReference_exact _).bind fun found => ?_
  cases found with
  | none => exact codedSize_exact sequence sizeOverride
  | some slot => exact (superres_exact sequence _).bind fun _ => .pure _

theorem intra_exact (sequence : SequenceHeader) (tools : FrameTools) (sizeOverride : Bool) :
    Read.Exact (intra sequence tools sizeOverride) :=
  (codedSize_exact sequence sizeOverride).bind fun _ => (bitIf_exact _).bind fun _ => .pure _

theorem frameId_exact (sequence : SequenceHeader) : Exact (frameId sequence) := by
  rw [frameId]
  cases sequence.frameIds with
  | none => exact .pure _
  | some ids =>
    exact (Exact.lift (bits_exact _)).bind fun _ => Exact.slots.bind fun _ =>
      (Exact.liftFault _).bind fun _ => (Exact.modifySlots _).bind fun _ => .pure _

theorem bufferRemovalTimes_exact (sequence : SequenceHeader) (header : ObuHeader) :
    Read.Exact (bufferRemovalTimes sequence header) := by
  rw [bufferRemovalTimes]
  cases sequence.decoderModel with
  | none => exact .pure _
  | some model =>
    refine bit_exact.bind fun _ => .ite ?_ (.pure _)
    refine (Read.Exact.forIn _ fun point => .ite ?_ (.pure _)).bind fun _ => .pure _
    exact (Read.Exact.liftFault _).bind fun _ =>
      .ite ((bits_exact _).bind fun _ => .pure _) (.pure _)

theorem refreshFlags_exact (frame : FrameKind) : Exact (refreshFlags frame) :=
  .ite (.pure _) ((Exact.lift (bits_exact 8)).bind fun _ =>
    .ite ((Exact.throw _).bind fun _ => .pure _) (.pure _))

theorem slotHints_exact (bits count i : Nat) : Exact (slotHints bits count i) := by
  induction count generalizing i with
  | zero => exact .pure _
  | succ count ih =>
    exact (Exact.lift (bits_exact bits)).bind fun _ => (Exact.modifySlots _).bind fun _ => ih _

theorem shortSignaling_exact (sequence : SequenceHeader) (slots : RefSlots) (orderHint : Nat) :
    Exact (shortSignaling sequence slots orderHint) :=
  (Exact.lift (bitIf_exact _)).bind fun _ => .ite
    ((Exact.lift slotIndex_exact).bind fun _ => (Exact.lift slotIndex_exact).bind fun _ =>
      (Exact.liftFault _).bind fun _ => (Exact.liftFrame _).bind fun _ => .pure _)
    (.pure _)

theorem checkFrameId_exact (ids : FrameIds) (frameId : Nat) (slots : RefSlots) (reference : Nat)
    (slot : Fin 8) : Exact (checkFrameId ids frameId slots reference slot) :=
  (Exact.lift (bits_exact _)).bind fun _ => (Exact.liftFault _).bind fun _ =>
    (Exact.liftFault _).bind fun _ => (Exact.liftFault _).bind fun _ =>
      (Exact.liftFault _).bind fun _ => .ite (.throw _) (.pure _)

theorem references_exact (sequence : SequenceHeader) (frameId : Nat) (slots : RefSlots)
    (short : Option RefIndices) : Exact (references sequence frameId slots short) := by
  have chosen : ∀ reference, Read.Exact (referenceSlot short reference) := by
    intro reference
    cases short with
    | none => exact slotIndex_exact
    | some chosen => exact .pure _
  have checked : ∀ reference slot,
      Exact (checkReference sequence frameId slots reference slot) := by
    intro reference slot
    unfold checkReference
    cases sequence.frameIds with
    | none => exact .pure _
    | some ids => exact checkFrameId_exact _ _ _ _ _
  exact Exact.mapM _ fun reference => (Exact.lift (chosen reference)).bind fun slot =>
    (checked reference slot).bind fun _ => .pure _

theorem interSize_exact (sequence : SequenceHeader) (frame : FrameKind) (sizeOverride : Bool)
    (slots : RefSlots) (references : RefIndices) :
    Read.Exact (interSize sequence frame sizeOverride slots references) :=
  .ite (sizeWithReferences_exact _ _ _ _) (codedSize_exact _ _)

theorem interpolationFilter_exact : Read.Exact interpolationFilter :=
  bit_exact.bind fun _ => .ite (.pure _) (bits_exact 2)

theorem inter_exact (sequence : SequenceHeader) (frame : FrameKind) (tools : FrameTools)
    (frameId orderHint : Nat) (sizeOverride : Bool) :
    Exact (inter sequence frame tools frameId orderHint sizeOverride) :=
  Exact.slots.bind fun _ => (shortSignaling_exact _ _ _).bind fun _ =>
    (references_exact _ _ _ _).bind fun _ => (Exact.lift (interSize_exact _ _ _ _ _)).bind fun _ =>
      (Exact.lift (bitIf_exact _)).bind fun _ => (Exact.lift interpolationFilter_exact).bind fun _ =>
        (Exact.lift bit_exact).bind fun _ => (Exact.lift (bitIf_exact _)).bind fun _ => .pure _

theorem checkPrimaryRef_exact (primaryRef : Nat) (references : RefIndices) :
    Exact (checkPrimaryRef primaryRef references) := by
  unfold checkPrimaryRef
  by_cases none : primaryRef ≠ FrameHeader.noPrimaryRef
  · rw [if_pos none]
    cases references.toList[primaryRef]? with
    | none => exact .throw _
    | some slot => exact Exact.slots.bind fun _ => .ite (.pure _) (.throw _)
  · rw [if_neg none]
    exact .pure _

theorem content_exact (sequence : SequenceHeader) (frame : FrameKind) (tools : FrameTools)
    (frameId orderHint : Nat) (sizeOverride : Bool) :
    Exact (content sequence frame tools frameId orderHint sizeOverride) :=
  .ite ((Exact.lift (intra_exact _ _ _)).bind fun _ => .pure _)
    ((inter_exact _ _ _ _ _ _).bind fun _ => .pure _)

/-- The header of a new frame depends on nothing behind it, up to the tiles. -/
theorem uncutFrame_exact (sequence : SequenceHeader) (header : ObuHeader) (frame : FrameKind) :
    Exact (uncutFrame sequence header frame) :=
  (Exact.modifySlots _).bind fun _ => (Exact.lift (tools_exact _ _)).bind fun _ =>
    (frameId_exact _).bind fun _ => (Exact.lift (bitUnless_exact _)).bind fun _ =>
      (Exact.lift (bits_exact _)).bind fun _ =>
        (Exact.lift (.ite (.pure _) (bits_exact _))).bind fun _ =>
          (Exact.lift (bufferRemovalTimes_exact _ _)).bind fun _ =>
            (refreshFlags_exact _).bind fun _ => (slotHints_exact _ _ _).bind fun _ =>
              (content_exact _ _ _ _ _ _).bind fun _ => (Exact.lift (bitUnless_exact _)).bind fun _ =>
                (checkPrimaryRef_exact _ _).bind fun _ => .pure _

end Av1Tiling.ReadFrame
