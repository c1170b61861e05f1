import Av1Tiling.Packet
import Av1Tiling.Proofs.Packet.Unit

/-!
# Checking units

Whether the units of a stream can be put together is decided by reading them: their parts are
gathered from their OBUs (`unitParts`), and each condition on parts is one that can be computed.
-/

namespace Av1Tiling

/-! ## The parts of a unit -/

/-- Tile groups without a frame header in front of them stand for themselves. -/
def strayGroups (groups : List GroupObu) : List UnitPart :=
  groups.map fun held => .alone held.parsed

/-- The tile groups that some OBUs start with, and the parts behind them. -/
def gather : List ParsedObu → List GroupObu × List UnitPart
  | [] => ([], [])
  | ⟨obu, content⟩ :: rest =>
    let (groups, parts) := gather rest
    match content with
    | .tileGroup group => (⟨obu, group⟩ :: groups, parts)
    | .frameHeader frame =>
      match frame.layout with
      | some layout => ([], .frame ⟨obu, frame, layout, groups⟩ :: parts)
      | none => ([], .alone ⟨obu, .frameHeader frame⟩ :: (strayGroups groups ++ parts))
    | content => ([], .alone ⟨obu, content⟩ :: (strayGroups groups ++ parts))

/-- The parts of some OBUs. Each frame header takes the tile groups behind it. -/
def unitParts (items : List ParsedObu) : List UnitPart :=
  strayGroups (gather items).1 ++ (gather items).2

theorem unitObus_strayGroups (groups : List GroupObu) (parts : List UnitPart) :
    unitObus (strayGroups groups ++ parts) = groups.map GroupObu.parsed ++ unitObus parts := by
  induction groups with
  | nil => rfl
  | cons held rest ih => exact congrArg (held.parsed :: ·) ih

/-- No OBU is lost. -/
theorem unitObus_unitParts (items : List ParsedObu) : unitObus (unitParts items) = items := by
  rw [unitParts, unitObus_strayGroups]
  induction items with
  | nil => rfl
  | cons item rest ih =>
    obtain ⟨obu, content⟩ := item
    have alone : ∀ other : ParsedObu,
        unitObus (.alone other :: (strayGroups (gather rest).1 ++ (gather rest).2)) =
          other :: rest := by
      intro other
      have behind := unitObus_strayGroups (gather rest).1 (gather rest).2
      rw [ih] at behind
      exact congrArg (other :: ·) behind
    cases content with
    | tileGroup group => exact congrArg (⟨obu, .tileGroup group⟩ :: ·) ih
    | frameHeader frame =>
      cases cut : frame.layout with
      | none =>
        simp only [gather, cut]
        exact alone _
      | some layout =>
        simp only [gather, cut]
        exact congrArg (⟨obu, .frameHeader frame⟩ :: ·) ih
    | _ => exact alone _

/-! ## Conditions that can be computed -/

instance decidableEqResult {ε σ α : Type} [DecidableEq ε] [DecidableEq σ] [DecidableEq α] :
    DecidableEq (EStateM.Result ε σ α)
  | .ok value state, .ok other last =>
    decidable_of_iff (value = other ∧ state = last) (by rw [EStateM.Result.ok.injEq])
  | .error cause state, .error other last =>
    decidable_of_iff (cause = other ∧ state = last) (by rw [EStateM.Result.error.injEq])
  | .ok _ _, .error _ _ => isFalse (by rintro ⟨⟩)
  | .error _ _, .ok _ _ => isFalse (by rintro ⟨⟩)

instance (payload : Bytes) (count : Nat) : Decidable (Closed payload count) :=
  decidable_of_iff (∃ stop ∈ (TrailingBit.position payload).toOption,
      count ≤ stop ∧ 8 * payload.length ≤ stop + 8) (by
    rw [Closed]
    cases TrailingBit.position payload <;> simp [Except.toOption])

instance : DecidablePred Plain
  | ⟨obu, .temporalDelimiter⟩ => decidable_of_iff (obu.payload = [])
    ⟨.temporalDelimiter, fun plain => by cases plain; assumption⟩
  | ⟨obu, .sequenceHeader sequence⟩ =>
    decidable_of_iff (Closed obu.payload sequence.dimensions.span.stop)
      ⟨.sequenceHeader, fun plain => by cases plain; assumption⟩
  | ⟨obu, .frameHeader frame⟩ =>
    decidable_of_iff (frame.showExisting = true ∧ Closed obu.payload 0)
      ⟨fun both => .existingFrame both.1 both.2, fun plain => by cases plain; exact ⟨‹_›, ‹_›⟩⟩
  | ⟨_, .tileGroup _⟩ => isFalse (by rintro ⟨⟩)
  | ⟨_, .frameHeaderCopy⟩ => isFalse (by rintro ⟨⟩)
  | ⟨_, .frame _⟩ => isFalse (by rintro ⟨⟩)
  | ⟨_, .other⟩ => isFalse (by rintro ⟨⟩)

instance (count : Nat) : DecidablePred (WholeFrame.Complete count) :=
  fun _ => decidable_of_iff' _ (WholeFrame.complete_iff ..)

instance : DecidablePred WholeFrame.Single :=
  fun _ => decidable_of_iff _ List.map_eq_singleton_iff

instance (count : Nat) : DecidablePred (UnitPart.Complete count)
  | .alone parsed => inferInstanceAs (Decidable (Plain parsed))
  | .frame whole => inferInstanceAs (Decidable (whole.Complete count))

instance (parts : List UnitPart) : Decidable (SequenceFirst parts) :=
  inferInstanceAs (Decidable (parts.Pairwise _))

instance (count capacity : Nat) (state : DecoderState) (unit : Bytes) (parts : List UnitPart)
    (behind : DecoderState) : Decidable (Canonical count capacity state unit parts behind) :=
  decidable_of_iff' _ (canonical_iff ..)

instance (count : Nat) (last : Option TileLayout) (sequence : Option SequenceHeader)
    (parts : List UnitPart) : Decidable (Placeable count last sequence parts) :=
  match last with
  | none => inferInstanceAs (Decidable (count = 1 ∧ sequence.isSome = true))
  | some layout => inferInstanceAs (Decidable ((∀ part ∈ parts, part.isSequence = false) ∨
      ∀ own ∈ sequence, own.dimensions.maxWidth = layout.grid.frameWidth ∧
        own.dimensions.maxHeight = layout.grid.frameHeight))

instance (sizeBytes : Nat) (tiles : List Bytes) : Decidable (TileGroup.Sized sizeBytes tiles) :=
  inferInstanceAs (Decidable (∀ tile ∈ tiles.dropLast,
    1 ≤ tile.length ∧ tile.length ≤ 256 ^ sizeBytes))

instance (count capacity : Nat) (last : Option TileLayout) (state : DecoderState) (unit : Bytes)
    (parts : List UnitPart) (behind : DecoderState) :
    Decidable (Mergeable count capacity last state unit parts behind) :=
  decidable_of_iff' _ (mergeable_iff ..)

/-! ## Streams -/

/-- A packet with a unit, and the parts of the unit. -/
structure UnitPacket where
  packet : Packet
  parts : List UnitPart
  deriving Repr, DecidableEq

/-- The units of some packets that are read over `state`. One that cannot be read has no parts. -/
def readUnits (state : DecoderState) : List Packet → List UnitPacket
  | [] => []
  | packet :: rest =>
    match Decode.parseUnit packet.data state with
    | .ok items behind => ⟨packet, unitParts items⟩ :: readUnits behind rest
    | .error _ behind => ⟨packet, []⟩ :: readUnits behind rest

/-- A stream of units that are `good` for the state in front of them and the layout of the last unit
    with several tiles. -/
inductive UnitStream (count : Nat)
    (good : Option TileLayout → DecoderState → UnitPacket → DecoderState → Prop) :
    Option TileLayout → DecoderState → List UnitPacket → Prop
  | nil (last : Option TileLayout) (state : DecoderState) : UnitStream count good last state []
  | cons {last : Option TileLayout} {state behind : DecoderState} {unit : UnitPacket}
      {rest : List UnitPacket} (first : good last state unit behind)
      (later : UnitStream count good (nextLayout count last unit.parts) behind rest) :
      UnitStream count good last state (unit :: rest)

/-- A stream of canonical units. -/
abbrev CanonicalStream (count capacity : Nat) :
    Option TileLayout → DecoderState → List UnitPacket → Prop :=
  UnitStream count fun _ state unit behind =>
    Canonical count capacity state unit.packet.data unit.parts behind

/-- A stream of units that can be put together. -/
abbrev MergeableStream (count capacity : Nat) :
    Option TileLayout → DecoderState → List UnitPacket → Prop :=
  UnitStream count fun last state unit behind =>
    Mergeable count capacity last state unit.packet.data unit.parts behind

/-- A stream is read unit by unit to decide whether its units are good. -/
def UnitStream.decidable {count : Nat}
    {good : Option TileLayout → DecoderState → UnitPacket → DecoderState → Prop}
    [∀ last state unit behind, Decidable (good last state unit behind)]
    (reads : ∀ {last state unit behind}, good last state unit behind →
      Decode.parseUnit unit.packet.data state = .ok (unitObus unit.parts) behind) :
    ∀ last state units, Decidable (UnitStream count good last state units)
  | last, state, [] => isTrue (.nil last state)
  | last, state, unit :: rest =>
    match run : Decode.parseUnit unit.packet.data state with
    | .error _ _ => isFalse (by
        intro stream
        cases stream with
        | cons first later =>
          rw [reads first] at run
          cases run)
    | .ok _ behind =>
      let _ : Decidable (UnitStream count good (nextLayout count last unit.parts) behind rest) :=
        UnitStream.decidable reads _ behind rest
      decidable_of_iff (good last state unit behind ∧
          UnitStream count good (nextLayout count last unit.parts) behind rest) (by
        constructor
        · rintro ⟨first, later⟩
          exact .cons first later
        · intro stream
          cases stream with
          | cons first later =>
            rw [reads first] at run
            cases run
            exact ⟨first, later⟩)

instance (count capacity : Nat) (last : Option TileLayout) (state : DecoderState)
    (units : List UnitPacket) : Decidable (CanonicalStream count capacity last state units) :=
  UnitStream.decidable Canonical.parsed last state units

instance (count capacity : Nat) (last : Option TileLayout) (state : DecoderState)
    (units : List UnitPacket) : Decidable (MergeableStream count capacity last state units) :=
  UnitStream.decidable (fun mergeable => mergeable.parsed) last state units

end Av1Tiling
