import Av1Tiling.Proofs.Packet.Canonical
import Av1Tiling.Proofs.Packet.Repacker

/-!
# Splitting and putting together again

A stream of units goes through a splitter, and the packets of each unit reach a repacker in some
order (`Relayed`). Splitter and repacker go through the stream with the same decoder state, so for
each unit that can be put together (`Mergeable`) the repacker yields the unit with one tile group
for each frame, with the last packet of the unit and not before.
-/

namespace Av1Tiling

/-! ## Relaying packets -/

/-- Each unit is split, and its packets reach the repacker in some order before those of the next
    unit. The repacker's answers are kept unit by unit. -/
inductive Relayed : TileSplitter → TileRepacker → List Packet → List (List Answer) → Prop
  | nil (splitter : TileSplitter) (repacker : TileRepacker) : Relayed splitter repacker [] []
  | cons {splitter : TileSplitter} {repacker : TileRepacker} {packet : Packet}
      {arrival rest : List Packet} {answers : List (List Answer)}
      (order : arrival.Perm (splitter.filter packet).1)
      (later : Relayed (splitter.filter packet).2 (repacker.filterAll arrival).2 rest answers) :
      Relayed splitter repacker (packet :: rest) ((repacker.filterAll arrival).1 :: answers)

/-- What a repacker says to the packets of a splitter as they come out of it. -/
def relay (splitter : TileSplitter) (repacker : TileRepacker) : List Packet → List (List Answer)
  | [] => []
  | packet :: rest =>
    let (packets, splitter) := splitter.filter packet
    let (answers, repacker) := repacker.filterAll packets
    answers :: relay splitter repacker rest

theorem Relayed.inOrder (splitter : TileSplitter) (repacker : TileRepacker)
    (packets : List Packet) :
    Relayed splitter repacker packets (relay splitter repacker packets) := by
  induction packets generalizing splitter repacker with
  | nil => exact .nil _ _
  | cons packet rest ih => exact .cons (.refl _) (ih _ _)

/-! ## The packets of a unit -/

namespace TileRepacker

variable {count capacity : Nat} {last : Option TileLayout} {behind : DecoderState}
  {packet : Packet} {parts : List UnitPart} {geometry : Nat → TileGeometry}
  {repacker : TileRepacker}

/-- The packets of a unit may come in any order. -/
theorem filterAll_perm
    (unit : UnitTiles count capacity last repacker.decoder packet parts behind geometry)
    (config : repacker.config = ⟨count, capacity⟩)
    (idle : repacker.slots = List.replicate count none) (filled : repacker.filled = 0)
    {arrival : List Packet}
    (perm : arrival.Perm ((List.range count).map (tilePacket packet parts geometry))) :
    repacker.filterAll arrival =
      (List.replicate (count - 1) (.ok none) ++
        [.ok (some (packet.withData (mergedUnit parts)))],
        { repacker with decoder := behind }) := by
  obtain ⟨order, rfl, tiles⟩ : ∃ order : List Nat,
      arrival = order.map (tilePacket packet parts geometry) ∧ order.Perm (List.range count) := by
    have moved : Relation.Comp (· = List.map (tilePacket packet parts geometry) ·) List.Perm
        arrival (List.range count) := by
      rw [List.eq_map_comp_perm]
      exact perm
    exact moved
  have fresh : repacker.withTiles count (tileSlot packet parts geometry) [] = repacker := by
    rw [withTiles, tileSlots_nil, ← idle, List.length_nil, ← filled]
  have run : (repacker.withTiles _ _ []).filterAll _ = _ :=
    filterAll_whole (unit.arrived tiles) (congrArg RepackConfig.tileCount config) unit.tiles.1 tiles
  rw [fresh, completed_unit unit config, ← idle, ← filled] at run
  exact run

end TileRepacker

/-- A splitter and a repacker that have seen the same units of a stream. -/
structure InStep (count capacity : Nat) (splitter : TileSplitter) (repacker : TileRepacker) :
    Prop where
  splitConfig : splitter.config = .default
  repackConfig : repacker.config = ⟨count, capacity⟩
  idle : repacker.slots = List.replicate count none
  filled : repacker.filled = 0
  decoder : repacker.decoder = splitter.decoder
  inRange : splitter.decoder.InRange
  layout : ∀ layout, splitter.lastLayout = some layout → layout.Several count

namespace InStep

variable {count capacity : Nat} {splitter : TileSplitter} {repacker : TileRepacker}

/-- A unit goes through splitter and repacker, which are in step behind it. -/
theorem unit (inStep : InStep count capacity splitter repacker)
    (tiles : 1 ≤ count ∧ count ≤ RepackConfig.maxTileCount) {unit : UnitPacket}
    {behind : DecoderState}
    (mergeable : Mergeable count capacity splitter.lastLayout splitter.decoder unit.packet.data
      unit.parts behind) {arrival : List Packet}
    (order : arrival.Perm (splitter.filter unit.packet).1) :
    (repacker.filterAll arrival).1 =
        List.replicate (count - 1) (.ok none) ++
          [.ok (some (unit.packet.withData (mergedUnit unit.parts)))] ∧
      InStep count capacity (splitter.filter unit.packet).2 (repacker.filterAll arrival).2 ∧
      (splitter.filter unit.packet).2.decoder = behind ∧
      (splitter.filter unit.packet).2.lastLayout =
        nextLayout count splitter.lastLayout unit.parts := by
  obtain ⟨geometry, unitTiles, split⟩ := TileSplitter.filter_eq inStep.splitConfig inStep.inRange
    tiles inStep.layout mergeable
  rw [split] at order ⊢
  rw [← inStep.decoder] at unitTiles
  have run := TileRepacker.filterAll_perm unitTiles inStep.repackConfig inStep.idle inStep.filled
    order
  have behindInRange : behind.InRange :=
    ((Decode.parseUnit_safe unit.packet.data).of_ok inStep.inRange mergeable.parsed).2
  rw [run]
  refine ⟨rfl, ⟨inStep.splitConfig, inStep.repackConfig, inStep.idle, inStep.filled, rfl,
    behindInRange, ?_⟩, rfl, rfl⟩
  exact fun layout found => nextLayout_several mergeable inStep.inRange inStep.layout found

/-- Splitter and repacker in front of a stream are in step. -/
theorem start (count capacity : Nat) :
    InStep count capacity ⟨.default, .empty, none⟩
      ⟨⟨count, capacity⟩, List.replicate count none, 0, .empty⟩ :=
  ⟨rfl, rfl, rfl, rfl, rfl, DecoderState.empty_inRange, by rintro _ ⟨⟩⟩

/-- A stream goes through splitter and repacker unit by unit. -/
theorem stream (tiles : 1 ≤ count ∧ count ≤ RepackConfig.maxTileCount)
    {last : Option TileLayout} {state : DecoderState} {units : List UnitPacket}
    (mergeable : MergeableStream count capacity last state units)
    (inStep : InStep count capacity splitter repacker) (lastLayout : splitter.lastLayout = last)
    (decoder : splitter.decoder = state)
    {answers : List (List Answer)}
    (relayed : Relayed splitter repacker (units.map UnitPacket.packet) answers) :
    answers = units.map fun unit => List.replicate (count - 1) (.ok none) ++
      [.ok (some (unit.packet.withData (mergedUnit unit.parts)))] := by
  induction mergeable generalizing splitter repacker answers with
  | nil =>
    cases relayed
    rfl
  | cons first later ih =>
    subst lastLayout decoder
    cases relayed with
    | cons order rest =>
      obtain ⟨answer, next, behind, layout⟩ := inStep.unit tiles first order
      rw [answer, ih next layout behind rest]
      rfl

end InStep

/-- A unit whose frames have a single tile group already, which does not say which tiles it holds,
    comes back as it is. -/
theorem merged_eq_data {count capacity : Nat} {last : Option TileLayout}
    {state : DecoderState} {units : List UnitPacket} (inRange : state.InRange)
    (mergeable : MergeableStream count capacity last state units) :
    ∀ unit ∈ units, unit.packet.data = (unitObus unit.parts).flatMap (·.obu.bytes) →
      (∀ whole ∈ unitFrames unit.parts, whole.Single) →
        mergedUnit unit.parts = unit.packet.data := by
  induction mergeable with
  | nil => rintro _ ⟨⟩
  | cons first later ih =>
    have behind := ((Decode.parseUnit_safe _).of_ok inRange first.parsed).2
    refine List.forall_mem_cons.2 ⟨?_, ih behind⟩
    intro written single
    rw [written]
    exact mergedUnit_of_single (first.known inRange) single

theorem TileSplitter.ofConfig_default :
    ofConfig .default = .ok ⟨.default, .empty, none⟩ := rfl

theorem TileRepacker.ofConfig_eq_ok {count capacity : Nat}
    (tiles : 1 ≤ count ∧ count ≤ RepackConfig.maxTileCount) (room : 0 < capacity) :
    ofConfig ⟨count, capacity⟩ =
      .ok ⟨⟨count, capacity⟩, List.replicate count none, 0, .empty⟩ := by
  have valid : RepackConfig.validate ⟨count, capacity⟩ = .ok () := by
    have nonzero : ¬capacity = 0 := Nat.ne_of_gt room
    rw [RepackConfig.validate, TileGeometry.checkRange, if_pos tiles]
    simp only [if_neg nonzero]
    rfl
  rw [ofConfig, valid]

/-- A stream is split and put together again. With the last packet of each unit, and not before,
    comes the unit with its times, flags and stream, and with the tile groups of each frame put into
    one. The order of the packets of a unit does not matter. -/
def RoundTrip (count capacity : Nat) (units : List UnitPacket) : Prop :=
  ∃ splitter repacker, TileSplitter.ofConfig .default = .ok splitter ∧
    TileRepacker.ofConfig ⟨count, capacity⟩ = .ok repacker ∧
    ∀ answers, Relayed splitter repacker (units.map UnitPacket.packet) answers →
      answers = units.map fun unit => List.replicate (count - 1) (.ok none) ++
        [.ok (some (unit.packet.withData (mergedUnit unit.parts)))]

/-- Units that can be put together make the round trip, for every number of tiles that a repacker
    can wait for. What comes back is the unit itself where each frame has one tile group already. -/
theorem roundTrip_of_mergeable {count capacity : Nat}
    (tiles : 1 ≤ count ∧ count ≤ RepackConfig.maxTileCount) (room : Emit.reservation ≤ capacity)
    {units : List UnitPacket} (mergeable : MergeableStream count capacity none .empty units) :
    RoundTrip count capacity units ∧
      ∀ unit ∈ units, unit.packet.data = (unitObus unit.parts).flatMap (·.obu.bytes) →
        (∀ whole ∈ unitFrames unit.parts, whole.Single) →
          mergedUnit unit.parts = unit.packet.data := by
  have positive : 0 < capacity := Nat.lt_of_lt_of_le (by decide) room
  constructor
  · refine ⟨_, _, TileSplitter.ofConfig_default, TileRepacker.ofConfig_eq_ok tiles positive, ?_⟩
    intro answers relayed
    exact (InStep.start count capacity).stream tiles mergeable rfl rfl relayed
  · exact merged_eq_data DecoderState.empty_inRange mergeable

/-- A stream of three units: a frame of two columns in two tile groups, one of two rows in one
    group, and a temporal delimiter. -/
theorem roundTrip_of_mergeable_two_cuts :
    ∃ units, units = readUnits .empty [
        ⟨[0x12, 0x00, 0x0A, 0x06, 0x18, 0x19, 0xBF, 0xFF, 0x00, 0x02, 0x1A, 0x02, 0x18, 0x40,
          0x22, 0x03, 0x80, 0xAA, 0xAB, 0x22, 0x02, 0xE0, 0xBB], some 0, none, 1, 0, none⟩,
        ⟨[0x12, 0x00, 0x0A, 0x06, 0x18, 0x19, 0xBF, 0xFF, 0x00, 0x02, 0x1A, 0x02, 0x14, 0x40,
          0x22, 0x04, 0x00, 0x00, 0xCC, 0xDD], some 40, none, 1, 0, none⟩,
        ⟨[0x12, 0x00], some 80, none, 0, 0, none⟩] ∧
      (1 ≤ 2 ∧ 2 ≤ RepackConfig.maxTileCount) ∧ Emit.reservation ≤ 64 ∧
      MergeableStream 2 64 none .empty units ∧ RoundTrip 2 64 units ∧
      (∀ unit ∈ units.drop 1, mergedUnit unit.parts = unit.packet.data) ∧
      (units.take 1).map (fun unit => mergedUnit unit.parts) =
        [[0x12, 0x00, 0x0A, 0x06, 0x18, 0x19, 0xBF, 0xFF, 0x00, 0x02, 0x1A, 0x02, 0x18, 0x40,
          0x22, 0x05, 0x00, 0x01, 0xAA, 0xAB, 0xBB]] := by
  refine ⟨_, rfl, ?_⟩
  generalize read : readUnits _ _ = units
  have tiles : 1 ≤ 2 ∧ 2 ≤ RepackConfig.maxTileCount := by decide
  have room : Emit.reservation ≤ 64 := by decide
  have mergeable : MergeableStream 2 64 none .empty units := by
    rw [← read]
    decide +kernel
  have single : ∀ unit ∈ units.drop 1,
      unit.packet.data = (unitObus unit.parts).flatMap (·.obu.bytes) ∧
        ∀ whole ∈ unitFrames unit.parts, whole.Single := by
    rw [← read]
    decide +kernel
  obtain ⟨back, same⟩ := roundTrip_of_mergeable tiles room mergeable
  refine ⟨tiles, room, mergeable, back, fun unit member => ?_, ?_⟩
  · obtain ⟨written, alone⟩ := single unit member
    exact same unit (List.mem_of_mem_drop member) written alone
  · rw [← read]
    decide +kernel

/-- The first answers that differ show that a stream does not make the round trip. -/
theorem not_roundTrip_of_relay {count capacity : Nat} {units : List UnitPacket}
    (tiles : 1 ≤ count ∧ count ≤ RepackConfig.maxTileCount) (room : 0 < capacity)
    (differs : relay ⟨.default, .empty, none⟩
      ⟨⟨count, capacity⟩, List.replicate count none, 0, .empty⟩ (units.map UnitPacket.packet) ≠
        units.map fun unit => List.replicate (count - 1) (.ok none) ++
          [.ok (some (unit.packet.withData (mergedUnit unit.parts)))]) :
    ¬RoundTrip count capacity units := by
  rintro ⟨splitter, repacker, split, repack, back⟩
  obtain rfl := Except.ok.inj (TileSplitter.ofConfig_default.symm.trans split)
  obtain rfl := Except.ok.inj ((TileRepacker.ofConfig_eq_ok tiles room).symm.trans repack)
  exact differs (back _ (.inOrder ..))

/-- Canonical units that do not come back: one that cannot be placed, as it has no frames and no
    sequence is known; one whose frames are cut in different ways; one with a tile whose size has
    two bytes where the frame header leaves one; and one with a sequence header of another size and
    no frames, behind a unit with two tiles. -/
theorem not_roundTrip_of_canonical :
    (∃ units, units = readUnits .empty [⟨[0x12, 0x00], none, none, 0, 0, none⟩] ∧
      CanonicalStream 1 10 none .empty units ∧ ¬RoundTrip 1 10 units) ∧
    (∃ units, units = readUnits .empty [
        ⟨[0x12, 0x00, 0x0A, 0x06, 0x18, 0x19, 0xBF, 0xFF, 0x00, 0x02, 0x1A, 0x02, 0x18, 0x40,
          0x22, 0x05, 0x00, 0x01, 0xAA, 0xAB, 0xBB, 0x1A, 0x02, 0x14, 0x40,
          0x22, 0x04, 0x00, 0x00, 0xCC, 0xDD], none, none, 0, 0, none⟩] ∧
      CanonicalStream 2 64 none .empty units ∧ ¬RoundTrip 2 64 units) ∧
    (∃ units, units = readUnits .empty [
        ⟨[0x12, 0x00, 0x0A, 0x06, 0x18, 0x19, 0xBF, 0xFF, 0x00, 0x02, 0x1A, 0x02, 0x18, 0x40,
          0x22, 0x82, 0x02, 0x80] ++ List.replicate 257 0xAA ++ [0x22, 0x02, 0xE0, 0xBB],
          none, none, 0, 0, none⟩] ∧
      CanonicalStream 2 512 none .empty units ∧ ¬RoundTrip 2 512 units) ∧
    ∃ units, units = readUnits .empty [
        ⟨[0x12, 0x00, 0x0A, 0x06, 0x18, 0x19, 0xBF, 0xFF, 0x00, 0x02, 0x1A, 0x02, 0x18, 0x40,
          0x22, 0x05, 0x00, 0x01, 0xAA, 0xAB, 0xBB], none, none, 0, 0, none⟩,
        ⟨[0x12, 0x00, 0x0A, 0x06, 0x18, 0x19, 0xBF, 0xBF, 0x00, 0x02], none, none, 0, 0, none⟩] ∧
      CanonicalStream 2 64 none .empty units ∧ ¬RoundTrip 2 64 units := by
  refine ⟨⟨_, rfl, ?_, ?_⟩, ⟨_, rfl, ?_, ?_⟩, ⟨_, rfl, ?_, ?_⟩, ⟨_, rfl, ?_, ?_⟩⟩
  · decide +kernel
  · exact not_roundTrip_of_relay (by decide) (by decide) (by decide +kernel)
  · decide +kernel
  · exact not_roundTrip_of_relay (by decide) (by decide) (by decide +kernel)
  · decide +kernel
  · exact not_roundTrip_of_relay (by decide) (by decide) (by decide +kernel)
  · decide +kernel
  · exact not_roundTrip_of_relay (by decide) (by decide) (by decide +kernel)

end Av1Tiling
