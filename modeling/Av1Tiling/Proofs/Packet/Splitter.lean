import Av1Tiling.Proofs.Packet.Geometry
import Av1Tiling.Proofs.Packet.Unit

/-!
# Splitting whole frames

A unit whose frames have all their tiles is split into one packet for each tile. What a packet says
of its tile is where it sits in the frame, which is the same for all frames of the unit, and where
its bytes are in each of the unit's tile groups.
-/

namespace Av1Tiling

namespace GroupObu

/-- The group and where its payload starts in the unit. -/
def placed (held : GroupObu) : TileSplitter.PlacedGroup :=
  ⟨held.obu.payloadOffset, held.group⟩

/-- Where the bytes of a tile are in the unit. -/
def span (tile : Nat) (held : GroupObu) : DataSpan :=
  TileSplitter.Survey.spanIn tile held.placed

end GroupObu

namespace TileSplitter

namespace Survey

/-- The survey of further parts. -/
def extended (survey : Survey) (parts : List UnitPart) : Survey where
  layout := (unitFrames parts).getLast?.map WholeFrame.layout <|> survey.layout
  tileCount := (unitFrames parts).getLast?.map (·.layout.tileCount) <|> survey.tileCount
  groups := survey.groups ++ (unitGroups parts).map GroupObu.placed

/-- A frame is the last one, until there is another. -/
theorem extended_frame (survey : Survey) (whole : WholeFrame) (rest : List UnitPart) :
    survey.extended (.frame whole :: rest) = extended {
      layout := some whole.layout, tileCount := some whole.layout.tileCount
      groups := survey.groups ++ whole.groups.map GroupObu.placed } rest := by
  have frames : unitFrames (.frame whole :: rest) = whole :: unitFrames rest := rfl
  have groups : unitGroups (.frame whole :: rest) = whole.groups ++ unitGroups rest := rfl
  rw [extended, extended, frames, groups, List.getLast?_cons, List.map_append, List.append_assoc]
  cases (unitFrames rest).getLast? <;> rfl

theorem addGroup_eq_ok {survey : Survey} {layout : TileLayout} (held : GroupObu)
    (open_ : survey.layout = some layout)
    (alike : survey.tileCount.getD layout.tileCount = layout.tileCount) :
    survey.add held.parsed = .ok {
      survey with
      tileCount := some layout.tileCount, groups := survey.groups ++ [held.placed] } := by
  simp only [add, GroupObu.parsed, addGroup, open_, alike, ne_eq, not_true_eq_false, if_false]
  rfl

theorem addGroups_eq_ok {groups : List GroupObu} (present : groups ≠ []) (survey : Survey)
    {layout : TileLayout} (open_ : survey.layout = some layout)
    (alike : survey.tileCount.getD layout.tileCount = layout.tileCount) :
    (groups.map GroupObu.parsed).foldlM add survey = .ok {
      survey with
      tileCount := layout.tileCount, groups := survey.groups ++ groups.map GroupObu.placed } := by
  induction groups generalizing survey with
  | nil => exact absurd rfl present
  | cons held rest ih =>
    rw [List.map_cons, List.foldlM_cons, Checked.bind_of_ok (addGroup_eq_ok held open_ alike)]
    cases rest with
    | nil => rfl
    | cons next later =>
      have behind := ih (List.cons_ne_nil next later) {
        survey with tileCount := some layout.tileCount, groups := survey.groups ++ [held.placed] }
        open_ rfl
      rw [behind, List.append_assoc]
      rfl

/-- An OBU that stands for itself adds nothing. -/
theorem add_alone {survey : Survey} {parsed : ParsedObu} {sequence : Option SequenceHeader}
    (plain : Plain parsed) (known : (UnitPart.alone parsed).Known sequence) :
    survey.add parsed = .ok survey := by
  have complete : (UnitPart.alone parsed).Complete 0 := plain
  have typed := known.typed complete parsed List.mem_cons_self
  cases plain with
  | temporalDelimiter => exact if_neg typed.list
  | sequenceHeader => exact if_neg typed.list
  | existingFrame shown =>
    simp only [add, known.uncut shown]
    rfl

theorem foldlM_add {parts : List UnitPart} {count : Nat} {sequence : Option SequenceHeader}
    (complete : ∀ part ∈ parts, part.Complete count) (known : ∀ part ∈ parts, part.Known sequence)
    (positive : 1 ≤ count) (survey : Survey) (alike : survey.tileCount.getD count = count) :
    (unitObus parts).foldlM add survey = .ok (survey.extended parts) := by
  induction parts generalizing survey with
  | nil => simp [unitObus, extended, unitFrames, unitGroups, pure, Except.pure]
  | cons part rest ih =>
    obtain ⟨here, others⟩ := List.forall_mem_cons.1 complete
    obtain ⟨hereKnown, othersKnown⟩ := List.forall_mem_cons.1 known
    rw [unitObus, List.flatMap_cons, List.foldlM_append]
    cases part with
    | alone parsed =>
      have first : ((UnitPart.alone parsed).parsed).foldlM add survey = .ok survey := by
        rw [UnitPart.parsed, List.foldlM_cons, add_alone here hereKnown]
        rfl
      rw [Checked.bind_of_ok first]
      exact ih others othersKnown survey alike
    | frame whole =>
      have opened : survey.add ⟨whole.header, .frameHeader whole.frame⟩ =
          .ok { survey with layout := some whole.layout } := by
        simp only [add, here.cut]
        rfl
      have groups := addGroups_eq_ok (here.groups_ne_nil positive)
        { survey with layout := some whole.layout } rfl (by rw [here.tileCount]; exact alike)
      have first : ((UnitPart.frame whole).parsed).foldlM add survey = .ok {
          layout := some whole.layout, tileCount := some whole.layout.tileCount
          groups := survey.groups ++ whole.groups.map GroupObu.placed } := by
        rw [UnitPart.parsed, WholeFrame.parsed, List.foldlM_cons, Checked.bind_of_ok opened]
        exact groups
      have later := ih others othersKnown {
          layout := some whole.layout, tileCount := some whole.layout.tileCount
          groups := survey.groups ++ whole.groups.map GroupObu.placed } here.tileCount
      rw [Checked.bind_of_ok first, extended_frame]
      exact later

end Survey

end TileSplitter

/-! ## What the packets say -/

/-- A stretch of a stretch. -/
theorem Bytes.slice_slice (bytes : Bytes) {start size first length : Nat}
    (inside : first + length ≤ size) :
    (bytes.slice start size).slice first length = bytes.slice (start + first) length := by
  rw [slice, slice, slice, List.drop_take, List.take_take, List.drop_drop,
    Nat.min_eq_left (by omega)]

/-- The bytes of a tile in a group lie in the unit, at the place that its span says. -/
theorem GroupObu.span_inside {held : GroupObu} {layout : TileLayout} {unit : Bytes}
    (within : held.obu.Within unit)
    (parsed : TileGroup.Parsed held.obu.payload layout held.group) (tile : Nat) :
    (held.span tile).stop ≤ unit.length ∧
      unit.slice (held.span tile).offset (held.span tile).size = held.tile tile := by
  rw [span, TileSplitter.Survey.spanIn, placed, GroupObu.tile]
  cases found : held.group.tiles.find? (·.tile == tile) with
  | none => exact ⟨Nat.zero_le _, rfl⟩
  | some span =>
    have bound := parsed.located.inside span (List.mem_of_find?_eq_some found)
    have inside := within.inside
    rw [Obu.unitSize] at inside
    constructor
    · simp only [DataSpan.stop, Obu.payloadOffset]
      omega
    · simp only [TileSpan.of]
      rw [within.payload, Bytes.slice_slice unit bound]

/-- The entry of an OBU of a small unit can be written. -/
theorem Obu.Within.entry_fits {obu : Obu} {unit : Bytes} (within : obu.Within unit)
    (type : ObuType.ofCode obu.header.type.code = obu.header.type) (small : unit.length < 2 ^ 32) :
    (ObuEntry.ofObu obu).Fits := by
  have bound := within.inside
  have code := within.header.type
  rw [Obu.unitSize] at bound
  refine ⟨⟨?_, type⟩, ?_, ?_⟩
  · simp only [ObuEntry.ofObu]
    omega
  · simp only [ObuEntry.ofObu, TileInfo.Word, Obu.unitSize]
    omega
  · simp only [ObuEntry.ofObu, TileInfo.Word]
    omega

/-- A span inside of a small unit can be written. -/
theorem DataSpan.fits_of_inside {unit : Bytes} (span : DataSpan) (inside : span.stop ≤ unit.length)
    (small : unit.length < 2 ^ 32) : span.Fits := by
  rw [DataSpan.stop] at inside
  constructor <;> rw [TileInfo.Word] <;> omega

/-- What the packet of a tile says. -/
def tileInfo (unit : Bytes) (parts : List UnitPart) (geometry : TileGeometry) (tile : Nat) :
    TileInfo where
  geometry := geometry
  obus := (unitObus parts).map fun parsed => ObuEntry.ofObu parsed.obu
  unitSize := unit.length
  groups := (unitGroups parts).map (·.span tile)

namespace Mergeable

variable {count capacity : Nat} {last : Option TileLayout} {state behind : DecoderState}
  {unit : Bytes} {parts : List UnitPart}

theorem tileInfo_fits (mergeable : Mergeable count capacity last state unit parts behind)
    (inRange : state.InRange) (tile : Nat) {geometry : TileGeometry}
    (words : ∀ value ∈ TileInfo.geometryWords geometry, TileInfo.Word value) :
    (tileInfo unit parts geometry tile).Fits ∧
      ∀ span ∈ (tileInfo unit parts geometry tile).groups, span.stop ≤ unit.length := by
  have small := mergeable.small
  have inside : ∀ span ∈ (tileInfo unit parts geometry tile).groups, span.stop ≤ unit.length := by
    intro span member
    obtain ⟨held, present, rfl⟩ := List.mem_map.1 member
    obtain ⟨layout, parsed⟩ := mergeable.group inRange present
    have within := mergeable.within _ (mem_unitObus_of_mem_unitGroups present)
    exact (held.span_inside within parsed tile).1
  refine ⟨⟨?_, ?_, words, small, ?_, fun span member => ?_⟩, inside⟩
  · rw [tileInfo, List.length_map]
    exact mergeable.obus
  · intro entry member
    obtain ⟨item, present, rfl⟩ := List.mem_map.1 member
    exact (mergeable.within item present).entry_fits (mergeable.typed inRange item present).code
      small
  · rw [tileInfo, List.length_map]
    exact mergeable.groups
  · exact span.fits_of_inside (inside span member) small

/-- The bytes of a tile in the groups of a frame, which stand behind those of other frames. -/
theorem tileData_eq (mergeable : Mergeable count capacity last state unit parts behind)
    (inRange : state.InRange) (geometry : TileGeometry) {front groups back : List GroupObu}
    (split : unitGroups parts = front ++ (groups ++ back)) (tile : Nat) :
    (tileInfo unit parts geometry tile).tileData unit front.length (front.length + groups.length) =
      groups.flatMap (·.tile tile) := by
  have own : (((tileInfo unit parts geometry tile).groups.drop front.length).take
      (front.length + groups.length - front.length)) = groups.map (·.span tile) := by
    rw [tileInfo, split, ← List.map_drop, ← List.map_take, List.drop_left,
      Nat.add_sub_cancel_left, List.take_left]
  rw [TileInfo.tileData, own, List.flatMap_map, List.flatMap_def, List.flatMap_def]
  refine congrArg List.flatten (List.map_congr_left fun held member => ?_)
  have present : held ∈ unitGroups parts := by
    rw [split]
    exact List.mem_append_right _ (List.mem_append_left _ member)
  obtain ⟨layout, parsed⟩ := mergeable.group inRange present
  exact (held.span_inside (mergeable.within _ (mem_unitObus_of_mem_unitGroups present)) parsed
    tile).2

end Mergeable

/-! ## The packets of a unit -/

/-- The unit's tiles are placed as its frames are cut. Where it has none, its sequence headers are
    of the size that the tiles are placed in. -/
structure Placement.Suits (placement : Placement) (sequence : Option SequenceHeader)
    (parts : List UnitPart) : Prop where
  sides : IsSide placement.width ∧ IsSide placement.height
  frames : ∀ whole ∈ unitFrames parts, whole.layout.placement = placement
  headers : unitFrames parts = [] → (∀ part ∈ parts, part.isSequence = false) ∨
    ∀ own, sequence = some own → own.dimensions.maxWidth = placement.width ∧
      own.dimensions.maxHeight = placement.height

/-- A layout of a frame that is not empty, with several tiles. -/
structure TileLayout.Several (layout : TileLayout) (count : Nat) : Prop where
  several : 1 < count
  tileCount : layout.tileCount = count
  expressible : layout.Expressible
  inRange : layout.grid.InRange

/-- The packet of a tile. -/
def tilePacket (packet : Packet) (parts : List UnitPart) (geometry : Nat → TileGeometry)
    (tile : Nat) : Packet :=
  { packet.withData ((tileInfo packet.data parts (geometry tile) tile).coded ++ packet.data) with
    tileIndex := some tile }

theorem Step.mapM_eq_ok {ε σ α β : Type} {items : List α} {each : α → EStateM ε σ β} {f : α → β}
    {state : σ} (known : ∀ item ∈ items, each item state = .ok (f item) state) :
    items.mapM each state = .ok (items.map f) state := by
  induction items with
  | nil => rfl
  | cons item rest ih =>
    obtain ⟨first, later⟩ := List.forall_mem_cons.1 known
    rw [List.mapM_cons, Step.bind_of_ok first, Step.bind_of_ok (ih later)]
    rfl

namespace Mergeable

variable {count capacity : Nat} {last : Option TileLayout} {state behind : DecoderState}
  {packet : Packet} {parts : List UnitPart}

theorem tilePacket_eq_ok
    (mergeable : Mergeable count capacity last state packet.data parts behind)
    (inRange : state.InRange) {placement : Placement} (geometry : Nat → TileGeometry) {tile : Nat}
    (placed : (geometry tile).At placement tile) :
    TileSplitter.Split.tilePacket packet (tileInfo packet.data parts (geometry tile) tile) tile =
      .ok (tilePacket packet parts geometry tile) := by
  obtain ⟨fits, inside⟩ := mergeable.tileInfo_fits inRange tile placed.words
  rw [TileSplitter.Split.tilePacket, (TileInfo.splitPacket_prepend fits rfl inside).1]
  rfl

theorem survey_eq_ok (mergeable : Mergeable count capacity last state packet.data parts behind)
    (inRange : state.InRange) (positive : 1 ≤ count) :
    TileSplitter.Survey.ofUnit (unitObus parts) =
      .ok (TileSplitter.Survey.empty.extended parts) := by
  have added := TileSplitter.Survey.foldlM_add mergeable.complete (mergeable.known inRange) positive
    .empty rfl
  have few : ¬TileInfo.maxGroups <
      (TileSplitter.Survey.empty.extended parts).groups.length := by
    have groups := mergeable.groups
    simp only [TileSplitter.Survey.extended, TileSplitter.Survey.empty, List.nil_append,
      List.length_map]
    omega
  rw [TileSplitter.Survey.ofUnit, Checked.bind_of_ok added]
  simp only [few, if_false]
  rfl

/-- What a packet says of a tile, in terms of the survey as in terms of the parts. -/
theorem tileInfo_eq (mergeable : Mergeable count capacity last state packet.data parts behind)
    (geometry : TileGeometry) (tile : Nat) :
    (TileSplitter.Survey.empty.extended parts).tileInfo packet.data (unitObus parts) geometry tile =
      tileInfo packet.data parts geometry tile := by
  have spans : (TileSplitter.Survey.empty.extended parts).spans tile =
      (unitGroups parts).map (·.span tile) := by
    rw [TileSplitter.Survey.spans, TileSplitter.Survey.extended, List.map_append, List.map_map]
    rfl
  rw [TileSplitter.Survey.tileInfo, spans, Checked.wordBound, Nat.mod_eq_of_lt mergeable.small]
  rfl

variable {splitter between : TileSplitter}

/-- What comes of a unit that is split by a layout of several tiles. -/
theorem tilePackets_several
    (mergeable : Mergeable count capacity last state packet.data parts behind)
    (inRange : state.InRange) {layout : TileLayout} (several : layout.Several count)
    (chosen : TileSplitter.Split.splitLayout (TileSplitter.Survey.empty.extended parts) splitter =
      .ok (some layout) between) :
    ∃ geometry, (∀ tile < count, (geometry tile).At layout.placement tile) ∧
      TileSplitter.Split.tilePackets packet (unitObus parts) splitter =
        .ok ((List.range count).map (tilePacket packet parts geometry)) between := by
  have positive : 1 ≤ count := Nat.le_of_lt several.several
  have each : ∀ tile, ∃ geometry, tile < count →
      TileSplitter.Split.placeIn layout tile = .ok geometry ∧
        geometry.At layout.placement tile := by
    intro tile
    by_cases inside : tile < count
    · rw [← several.tileCount] at inside
      obtain ⟨geometry, placed⟩ :=
        TileSplitter.Split.placeIn_eq_ok several.inRange several.expressible inside
      exact ⟨geometry, fun _ => placed⟩
    · exact ⟨.fullFrame 0 0, fun less => absurd less inside⟩
  obtain ⟨geometry, placed⟩ := Classical.axiomOfChoice each
  refine ⟨geometry, fun tile inside => (placed tile inside).2, ?_⟩
  rw [TileSplitter.Split.tilePackets, mergeable.survey_eq_ok inRange positive]
  refine (Step.bind_of_ok chosen).trans ?_
  simp only [several.tileCount, mergeable.tileInfo_eq]
  refine Step.mapM_eq_ok fun tile member => ?_
  obtain ⟨found, sits⟩ := placed tile (List.mem_range.1 member)
  have made := mergeable.tilePacket_eq_ok inRange geometry sits
  rw [found]
  exact (congrArg (fun result => (liftM result : TileSplitter.Split Packet) between) made)

/-- What comes of a unit that is a single tile. -/
theorem tilePackets_single
    (mergeable : Mergeable count capacity last state packet.data parts behind)
    (inRange : state.InRange) (positive : 1 ≤ count) {geometry : TileGeometry}
    {placement : Placement}
    (chosen : TileSplitter.Split.splitLayout (TileSplitter.Survey.empty.extended parts) splitter =
      .ok none between)
    (located : TileSplitter.Split.placeUnit (TileSplitter.Survey.empty.extended parts).layout
      between = .ok geometry between)
    (config : between.config = .default) (placed : geometry.At placement 0) :
    TileSplitter.Split.tilePackets packet (unitObus parts) splitter =
      .ok [tilePacket packet parts (fun _ => geometry) 0] between := by
  have made := mergeable.tilePacket_eq_ok inRange (fun _ => geometry) placed
  rw [TileSplitter.Split.tilePackets, mergeable.survey_eq_ok inRange positive]
  refine (Step.bind_of_ok chosen).trans ((Step.bind_of_ok located).trans ?_)
  simp only [mergeable.tileInfo_eq]
  rw [Step.get_bind, config]
  have none : SplitConfig.default.tileIndex.getD 0 = 0 := rfl
  rw [none]
  refine Step.bind_of_ok (congrArg (fun result => (liftM result : TileSplitter.Split Packet)
    between) made)

/-- The frames of a unit are all placed as the last one. -/
theorem suits_of_last (mergeable : Mergeable count capacity last state packet.data parts behind)
    (inRange : state.InRange) (positive : 1 ≤ count) {whole : WholeFrame}
    (found : (unitFrames parts).getLast? = some whole) :
    whole.layout.placement.Suits behind.sequence parts ∧ whole.layout.tileCount = count ∧
      whole.layout.Expressible ∧ whole.layout.grid.InRange := by
  have member := List.mem_of_getLast? found
  obtain ⟨own, -, -, complete, -, expressible, legal⟩ := mergeable.layout inRange positive member
  refine ⟨⟨⟨legal.width, legal.height⟩, fun other present => ?_, fun none => ?_⟩,
    complete.tileCount, expressible, legal⟩
  · exact mergeable.alike other present whole member
  · rw [none] at found
    cases found

end Mergeable

theorem nextLayout_several {count capacity : Nat} {last : Option TileLayout}
    {state behind : DecoderState} {unit : Bytes} {parts : List UnitPart} {layout : TileLayout}
    (mergeable : Mergeable count capacity last state unit parts behind) (inRange : state.InRange)
    (known : ∀ layout, last = some layout → layout.Several count)
    (found : nextLayout count last parts = some layout) : layout.Several count := by
  rw [nextLayout] at found
  by_cases several : 1 < count
  · rw [if_pos several] at found
    cases final : (unitFrames parts).getLast? with
    | none =>
      rw [final] at found
      exact known layout found
    | some whole =>
      rw [final] at found
      cases found
      obtain ⟨own, -, -, complete, -, expressible, legal⟩ :=
        mergeable.layout inRange (Nat.le_of_lt several) (List.mem_of_getLast? final)
      exact ⟨several, complete.tileCount, expressible, legal⟩
  · rw [if_neg several] at found
    exact known layout found

/-- The tiles of a unit that can be put together again: as many as a repacker can wait for, placed
    by `geometry` as the unit's frames are cut. -/
structure UnitTiles (count capacity : Nat) (last : Option TileLayout) (state : DecoderState)
    (packet : Packet) (parts : List UnitPart) (behind : DecoderState)
    (geometry : Nat → TileGeometry) : Prop where
  mergeable : Mergeable count capacity last state packet.data parts behind
  inRange : state.InRange
  tiles : 1 ≤ count ∧ count ≤ RepackConfig.maxTileCount
  placed : ∃ placement, Placement.Suits placement behind.sequence parts ∧
    placement.xs.length * placement.ys.length = count ∧
    ∀ tile < count, (geometry tile).At placement tile

/-- In the state behind the unit, its parts make up one packet for each tile. -/
def IsSplit (count capacity : Nat) (last : Option TileLayout) (state : DecoderState)
    (packet : Packet) (parts : List UnitPart) (behind : DecoderState) : Prop :=
  ∃ geometry, UnitTiles count capacity last state packet parts behind geometry ∧
    TileSplitter.Split.tilePackets packet (unitObus parts) ⟨.default, behind, last⟩ =
      .ok ((List.range count).map (tilePacket packet parts geometry))
        ⟨.default, behind, nextLayout count last parts⟩

namespace Mergeable

open TileSplitter

variable {count capacity : Nat} {last : Option TileLayout} {state behind : DecoderState}
  {packet : Packet} {parts : List UnitPart}

/-- A unit without frames that is the one tile of its sequence. -/
theorem isSplit_of_sequence
    (mergeable : Mergeable 1 capacity none state packet.data parts behind)
    (inRange : state.InRange) (none : unitFrames parts = []) {sequence : SequenceHeader}
    (found : behind.sequence = some sequence) :
    IsSplit 1 capacity .none state packet parts behind := by
  have behindInRange : behind.InRange :=
    ((Decode.parseUnit_safe packet.data).of_ok inRange mergeable.parsed).2
  have sides := (behindInRange.sequence sequence found).dimensions
  have chosen : Split.splitLayout (Survey.empty.extended parts) ⟨.default, behind, .none⟩ =
      .ok .none ⟨.default, behind, .none⟩ := by
    rw [Survey.extended, none]
    rfl
  have located : Split.placeUnit (Survey.empty.extended parts).layout ⟨.default, behind, .none⟩ =
      .ok (.fullFrame sequence.dimensions.maxWidth sequence.dimensions.maxHeight)
        ⟨.default, behind, .none⟩ := by
    rw [Survey.extended, none, Split.placeUnit, Step.get_bind]
    simp only [found]
    rfl
  have wide : TileInfo.Word sequence.dimensions.maxWidth :=
    Nat.lt_of_le_of_lt sides.width.2 (by decide)
  have high : TileInfo.Word sequence.dimensions.maxHeight :=
    Nat.lt_of_le_of_lt sides.height.2 (by decide)
  have placed := TileGeometry.fullFrame_at wide high
  have run := mergeable.tilePackets_single inRange (Nat.le_refl 1) chosen located rfl placed
  refine ⟨fun _ => .fullFrame _ _, ⟨mergeable, inRange, by decide, .single _ _,
    ⟨⟨sides.width, sides.height⟩, ?_, ?_⟩, rfl, ?_⟩, run⟩
  · rw [none]
    intro whole member
    cases member
  · intro _
    right
    intro own same
    obtain rfl := Option.some.inj (found.symm.trans same)
    exact ⟨rfl, rfl⟩
  · intro tile inside
    obtain rfl : tile = 0 := by omega
    exact placed

/-- A unit without frames that goes by the last layout. -/
theorem isSplit_of_last {layout : TileLayout}
    (mergeable : Mergeable count capacity (some layout) state packet.data parts behind)
    (inRange : state.InRange) (tiles : 1 ≤ count ∧ count ≤ RepackConfig.maxTileCount)
    (none : unitFrames parts = []) (several : layout.Several count) :
    IsSplit count capacity (some layout) state packet parts behind := by
  have chosen : Split.splitLayout (Survey.empty.extended parts)
      ⟨.default, behind, some layout⟩ = .ok (some layout) ⟨.default, behind, some layout⟩ := by
    rw [Survey.extended, none]
    rfl
  have next : nextLayout count (some layout) parts = some layout := by
    rw [nextLayout, none]
    exact ite_self _
  obtain ⟨geometry, placed, run⟩ := mergeable.tilePackets_several inRange several chosen
  rw [IsSplit, next]
  refine ⟨geometry, ⟨mergeable, inRange, tiles, layout.placement,
    ⟨⟨several.inRange.width, several.inRange.height⟩, ?_, fun _ => mergeable.placeable none⟩,
    several.expressible.placement_count.trans several.tileCount, placed⟩, run⟩
  rw [none]
  intro whole member
  cases member

/-- A unit whose last frame has several tiles. -/
theorem isSplit_of_frames
    (mergeable : Mergeable count capacity last state packet.data parts behind)
    (inRange : state.InRange) (tiles : 1 ≤ count ∧ count ≤ RepackConfig.maxTileCount)
    (many : 1 < count) {whole : WholeFrame} (final : (unitFrames parts).getLast? = some whole) :
    IsSplit count capacity last state packet parts behind := by
  obtain ⟨suits, tileCount, expressible, legal⟩ := mergeable.suits_of_last inRange tiles.1 final
  have several : whole.layout.Several count := ⟨many, tileCount, expressible, legal⟩
  have chosen : Split.splitLayout (Survey.empty.extended parts) ⟨.default, behind, last⟩ =
      .ok (some whole.layout) ⟨.default, behind, nextLayout count last parts⟩ := by
    have surveyed : (Survey.empty.extended parts).layout = some whole.layout ∧
        (Survey.empty.extended parts).tileCount = some count := by
      rw [Survey.extended, final, ← tileCount]
      exact ⟨rfl, rfl⟩
    rw [Split.splitLayout, surveyed.1, surveyed.2, nextLayout, final, if_pos many]
    simp only [if_pos many]
    rfl
  obtain ⟨geometry, placed, run⟩ := mergeable.tilePackets_several inRange several chosen
  exact ⟨geometry, ⟨mergeable, inRange, tiles, _, suits,
    expressible.placement_count.trans tileCount, placed⟩, run⟩

/-- A unit whose last frame is a single tile. -/
theorem isSplit_of_frame
    (mergeable : Mergeable 1 capacity last state packet.data parts behind)
    (inRange : state.InRange) {whole : WholeFrame}
    (final : (unitFrames parts).getLast? = some whole) :
    IsSplit 1 capacity last state packet parts behind := by
  obtain ⟨suits, tileCount, expressible, legal⟩ :=
    mergeable.suits_of_last inRange (Nat.le_refl 1) final
  have chosen : Split.splitLayout (Survey.empty.extended parts) ⟨.default, behind, last⟩ =
      .ok none ⟨.default, behind, last⟩ := by
    have surveyed : (Survey.empty.extended parts).layout = some whole.layout ∧
        (Survey.empty.extended parts).tileCount = some 1 := by
      rw [Survey.extended, final, ← tileCount]
      exact ⟨rfl, rfl⟩
    rw [Split.splitLayout, surveyed.1, surveyed.2]
    rfl
  have located : Split.placeUnit (Survey.empty.extended parts).layout ⟨.default, behind, last⟩ =
      .ok (.fullFrame whole.layout.grid.frameWidth whole.layout.grid.frameHeight)
        ⟨.default, behind, last⟩ := by
    rw [Survey.extended, final]
    rfl
  have wide : TileInfo.Word whole.layout.grid.frameWidth :=
    Nat.lt_of_le_of_lt legal.width.2 (by decide)
  have high : TileInfo.Word whole.layout.grid.frameHeight :=
    Nat.lt_of_le_of_lt legal.height.2 (by decide)
  have placed := TileGeometry.fullFrame_at wide high
  rw [← TileLayout.placement_of_single legal expressible tileCount] at placed
  have run := mergeable.tilePackets_single inRange (Nat.le_refl 1) chosen located rfl placed
  refine ⟨fun _ => .fullFrame _ _, ⟨mergeable, inRange, by decide, _, suits,
    expressible.placement_count.trans tileCount, ?_⟩, run⟩
  intro tile inside
  obtain rfl : tile = 0 := by omega
  exact placed

theorem isSplit (mergeable : Mergeable count capacity last state packet.data parts behind)
    (inRange : state.InRange) (tiles : 1 ≤ count ∧ count ≤ RepackConfig.maxTileCount)
    (known : ∀ layout, last = some layout → layout.Several count) :
    IsSplit count capacity last state packet parts behind := by
  cases final : (unitFrames parts).getLast? with
  | none =>
    have none := List.getLast?_eq_none_iff.1 final
    cases last with
    | none =>
      obtain ⟨rfl, present⟩ := mergeable.placeable none
      obtain ⟨sequence, found⟩ := Option.isSome_iff_exists.1 present
      exact mergeable.isSplit_of_sequence inRange none found
    | some layout => exact mergeable.isSplit_of_last inRange tiles none (known layout rfl)
  | some whole =>
    by_cases many : 1 < count
    · exact mergeable.isSplit_of_frames inRange tiles many final
    · obtain rfl : count = 1 := by omega
      exact mergeable.isSplit_of_frame inRange final

end Mergeable

/-- A unit of whole frames is split into one packet for each tile, all of which are placed as the
    frames are cut. -/
theorem TileSplitter.filter_eq {splitter : TileSplitter} {packet : Packet} {parts : List UnitPart}
    {count capacity : Nat} {behind : DecoderState} (config : splitter.config = .default)
    (inRange : splitter.decoder.InRange)
    (tiles : 1 ≤ count ∧ count ≤ RepackConfig.maxTileCount)
    (known : ∀ layout, splitter.lastLayout = some layout → layout.Several count)
    (mergeable : Mergeable count capacity splitter.lastLayout splitter.decoder packet.data parts
      behind) :
    ∃ geometry, UnitTiles count capacity splitter.lastLayout splitter.decoder packet parts behind
        geometry ∧
      splitter.filter packet = ((List.range count).map (tilePacket packet parts geometry),
        { splitter with
          decoder := behind, lastLayout := nextLayout count splitter.lastLayout parts }) := by
  obtain ⟨_, decoder, last⟩ := splitter
  obtain rfl : _ = SplitConfig.default := config
  simp only at inRange known mergeable
  obtain ⟨geometry, unitTiles, run⟩ := mergeable.isSplit inRange tiles known
  refine ⟨geometry, unitTiles, ?_⟩
  rw [filter, mergeable.parsed]
  simp only [run]

end Av1Tiling
