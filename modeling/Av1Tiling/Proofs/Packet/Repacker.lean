import Av1Tiling.Proofs.Packet.Assembly
import Av1Tiling.Proofs.Packet.Slots

/-!
# Putting the tiles of a unit together

With all the packets that the splitter made of a unit, the unit is written again that they were
taken from.
-/

namespace Av1Tiling

/-! ## What the unit is written from -/

/-- The size of a frame that is cut. -/
def ParsedObu.cutSize? (parsed : ParsedObu) : Option (Nat × Nat) :=
  match parsed.content with
  | .frameHeader frame =>
    if frame.layout.isSome then some (frame.size.frameWidth, frame.size.frameHeight) else none
  | _ => none

theorem TileGrid.matchesFrameSize_eq (grid : TileGrid) (unit : List ParsedObu)
    (sequence : SequenceHeader) :
    grid.matchesFrameSize unit sequence =
      ((unit.findSome? ParsedObu.cutSize?).getD
        (sequence.dimensions.maxWidth, sequence.dimensions.maxHeight)
          == (grid.geometry.width, grid.geometry.height)) := rfl

/-- The first frame that is cut is the first one with tiles. -/
theorem findSome?_cutSize? {parts : List UnitPart} {count : Nat}
    {sequence : Option SequenceHeader} (complete : ∀ part ∈ parts, part.Complete count)
    (known : ∀ part ∈ parts, part.Known sequence) :
    (unitObus parts).findSome? ParsedObu.cutSize? =
      (unitFrames parts).head?.map fun whole =>
        (whole.frame.size.frameWidth, whole.frame.size.frameHeight) := by
  induction parts with
  | nil => rfl
  | cons part rest ih =>
    obtain ⟨here, others⟩ := List.forall_mem_cons.1 complete
    obtain ⟨hereKnown, othersKnown⟩ := List.forall_mem_cons.1 known
    have later := ih others othersKnown
    cases part with
    | alone parsed =>
      have uncut : parsed.cutSize? = none := by
        have plain : Plain parsed := here
        cases plain with
        | temporalDelimiter => rfl
        | sequenceHeader => rfl
        | existingFrame shown =>
          have none := hereKnown.uncut shown
          simp only [ParsedObu.cutSize?, none, Option.isSome_none, Bool.false_eq_true, if_false]
      have first : unitObus (.alone parsed :: rest) = parsed :: unitObus rest := rfl
      rw [first, List.findSome?_cons, uncut]
      exact later
    | frame whole =>
      have first : unitObus (.frame whole :: rest) = ⟨whole.header, .frameHeader whole.frame⟩ ::
        (whole.groups.map GroupObu.parsed ++ unitObus rest) := rfl
      have size : ParsedObu.cutSize? ⟨whole.header, .frameHeader whole.frame⟩ =
          some (whole.frame.size.frameWidth, whole.frame.size.frameHeight) := by
        simp only [ParsedObu.cutSize?, here.cut, Option.isSome_some, if_true]
      rw [first, List.findSome?_cons, size]
      rfl

/-- The OBUs of tile groups are those of the frames. -/
theorem countP_tileGroup {parts : List UnitPart} {count : Nat}
    (complete : ∀ part ∈ parts, part.Complete count)
    (typed : ∀ item ∈ unitObus parts, item.Typed) :
    ((unitObus parts).map ParsedObu.obu).countP (·.header.type == .tileGroup) =
      (unitGroups parts).length := by
  induction parts with
  | nil => rfl
  | cons part rest ih =>
    obtain ⟨here, others⟩ := List.forall_mem_cons.1 complete
    have obus : unitObus (part :: rest) = part.parsed ++ unitObus rest := rfl
    rw [obus] at typed ⊢
    obtain ⟨own, behind⟩ := List.forall_mem_append.1 typed
    rw [List.map_append, List.countP_append, ih others behind]
    cases part with
    | alone parsed =>
      have other : ¬(parsed.obu.header.type == .tileGroup) = true := by
        rw [beq_iff_eq, (own parsed List.mem_cons_self).group]
        rintro ⟨group, same⟩
        have plain : Plain parsed := here
        cases plain <;> cases same
      have groups : unitGroups (.alone parsed :: rest) = unitGroups rest := rfl
      rw [groups, UnitPart.parsed, List.map_singleton, List.countP_singleton, if_neg other,
        Nat.zero_add]
    | frame whole =>
      obtain ⟨header, held⟩ := List.forall_mem_cons.1 own
      have other : ¬(whole.header.header.type == .tileGroup) = true := by
        rw [beq_iff_eq]
        intro same
        obtain ⟨group, same⟩ := header.group.1 same
        cases same
      have all : ((whole.groups.map GroupObu.parsed).map ParsedObu.obu).countP
          (·.header.type == .tileGroup) = whole.groups.length := by
        rw [List.countP_eq_length.2, List.length_map, List.length_map]
        intro obu member
        obtain ⟨item, present, rfl⟩ := List.mem_map.1 member
        obtain ⟨group, -, rfl⟩ := List.mem_map.1 present
        exact beq_iff_eq.2 ((held _ present).group.2 ⟨_, rfl⟩)
      have groups : unitGroups (.frame whole :: rest) = whole.groups ++ unitGroups rest := rfl
      rw [groups, List.length_append, UnitPart.parsed, WholeFrame.parsed, List.map_cons,
        List.countP_cons, if_neg other, Nat.add_zero, all]

namespace TileRepacker.Repack

/-- The sequence header for the frame size that tiles are placed in, if the unit has another one. A
    unit with frames has that size. -/
theorem target_eq_ok {count capacity : Nat} {last : Option TileLayout}
    {state behind : DecoderState} {packet : Packet} {parts : List UnitPart}
    (mergeable : Mergeable count capacity last state packet.data parts behind)
    (inRange : state.InRange) (positive : 1 ≤ count) {placement : Placement}
    (suits : placement.Suits behind.sequence parts) (grid : TileGrid)
    (width : grid.geometry.width = placement.width)
    (height : grid.geometry.height = placement.height) {own : SequenceHeader}
    (present : behind.sequence = some own) :
    grid.matchesFrameSize (unitObus parts) own = true ∨
      (unitFrames parts = [] ∧ ∀ part ∈ parts, part.isSequence = false) ∧
        ∃ target, own.withDimensions grid.geometry.width grid.geometry.height = .ok target := by
  rw [TileGrid.matchesFrameSize_eq,
    findSome?_cutSize? mergeable.complete (mergeable.known inRange), width, height, beq_iff_eq]
  cases frames : unitFrames parts with
  | cons whole rest =>
    have member : whole ∈ unitFrames parts := by
      rw [frames]
      exact List.mem_cons_self
    obtain ⟨_, -, -, -, cut, -, -⟩ := mergeable.layout inRange positive member
    have same := suits.frames whole member
    left
    rw [← same, TileLayout.placement, cut]
    rfl
  | nil =>
    rcases suits.headers frames with none | known
    · right
      exact ⟨⟨rfl, none⟩, own.withDimensions_gives suits.sides.1 suits.sides.2⟩
    · obtain ⟨sameWidth, sameHeight⟩ := known own present
      left
      rw [sameWidth, sameHeight]
      rfl

/-- The frames of a unit keep their layouts when they are cut as its tiles are placed. -/
theorem layoutFor_eq_ok {count capacity : Nat} {last : Option TileLayout}
    {state behind : DecoderState} {packet : Packet} {parts : List UnitPart}
    (mergeable : Mergeable count capacity last state packet.data parts behind)
    (inRange : state.InRange) (positive : 1 ≤ count) {placement : Placement}
    (suits : placement.Suits behind.sequence parts) {first : TileGeometry}
    (width : first.width = placement.width) (height : first.height = placement.height)
    {whole : WholeFrame} (member : whole ∈ unitFrames parts) {own : SequenceHeader}
    (present : behind.sequence = some own) :
    TileGrid.layoutFor ⟨first, placement.xs, placement.ys⟩ whole.frame own = .ok whole.layout := by
  obtain ⟨found, same, known, complete, cut, expressible, legal⟩ :=
    mergeable.layout inRange positive member
  obtain rfl := Option.some.inj (same.symm.trans present)
  have placement := suits.frames whole member
  obtain ⟨slots, kept, parsed⟩ := known.parsed
  refine TileGrid.layoutFor_own complete.cut legal expressible ?_ ?_ ?_
  · rw [placement]
  · rw [placement]
  · rcases FrameHeader.parse_cut parsed with ⟨shown, -⟩ | ⟨-, layout, again, success⟩
    · rw [complete.own] at shown
      cases shown
    · obtain rfl := Option.some.inj (again.symm.trans complete.cut)
      have frameWidth : first.width = whole.frame.size.frameWidth := by
        rw [width, ← placement, TileLayout.placement, cut]
      have frameHeight : first.height = whole.frame.size.frameHeight := by
        rw [height, ← placement, TileLayout.placement, cut]
      simp only [frameWidth, frameHeight]
      exact success

/-- All tiles have as many spans as the unit has tile groups. -/
theorem findIdx?_tileSlot {parts : List UnitPart} {count : Nat} (packet : Packet)
    (geometry : Nat → TileGeometry) (complete : ∀ part ∈ parts, part.Complete count)
    (typed : ∀ item ∈ unitObus parts, item.Typed) :
    ((List.range count).map (tileSlot packet parts geometry)).findIdx? (fun slot =>
      slot.info.groups.length !=
        ((unitObus parts).map ParsedObu.obu).countP (·.header.type == .tileGroup)) = none := by
  rw [countP_tileGroup complete typed, List.findIdx?_eq_none_iff]
  intro slot member
  obtain ⟨tile, -, rfl⟩ := List.mem_map.1 member
  have length : (tileSlot packet parts geometry tile).info.groups.length =
      (unitGroups parts).length := List.length_map _
  rw [length]
  exact bne_self_eq_false _

/-- With all tiles of a unit there is a template of the unit. -/
theorem templateFor_eq_ok {count capacity : Nat} {last : Option TileLayout}
    {state behind : DecoderState} {packet : Packet} {parts : List UnitPart}
    {geometry : Nat → TileGeometry}
    (unit : UnitTiles count capacity last state packet parts behind geometry) :
    ∃ template, templateFor behind.sequence
        ((List.range count).map (tileSlot packet parts geometry))
        (tileSlot packet parts geometry 0) (unitObus parts) = .ok template ∧
      template.Fits count packet behind.sequence parts := by
  obtain ⟨mergeable, inRange, ⟨positive, most⟩, placement, suits, total, placed⟩ := unit
  have word : TileInfo.Word count := Nat.lt_of_le_of_lt most (by decide)
  have zero := placed 0 positive
  have collected : TileGrid.collect (tileSlot packet parts geometry 0).info.geometry
      (((List.range count).map (tileSlot packet parts geometry)).map (·.info.geometry)) =
        .ok ⟨geometry 0, placement.xs, placement.ys⟩ := by
    have geometries : ((List.range count).map (tileSlot packet parts geometry)).map
        (·.info.geometry) = (List.range count).map geometry := List.map_map
    rw [geometries]
    exact TileGrid.collect_eq_ok total.symm positive word placed
  have described : (tileSlot packet parts geometry 0).info.describes
      ((unitObus parts).map ParsedObu.obu) = true := by
    rw [TileInfo.describes, List.map_map]
    exact beq_self_eq_true _
  have counted := findIdx?_tileSlot packet geometry mergeable.complete
    (mergeable.typed inRange)
  have made : ∀ target : Option SequenceHeader, (target = none ∨
      unitFrames parts = [] ∧ ∀ part ∈ parts, part.isSequence = false) →
      (⟨(List.range count).map (tileSlot packet parts geometry),
        ⟨geometry 0, placement.xs, placement.ys⟩, behind.sequence, target⟩ :
          Template).Fits count packet behind.sequence parts :=
    fun target kept => ⟨⟨geometry, rfl⟩, rfl, kept, fun whole member own present =>
      layoutFor_eq_ok mergeable inRange positive suits zero.width zero.height member present⟩
  rw [templateFor, Checked.bind_of_ok collected]
  simp only [described, counted, if_true, pure_bind]
  cases present : behind.sequence with
  | none => exact ⟨_, rfl, present ▸ made none (.inl rfl)⟩
  | some own =>
    rcases target_eq_ok mergeable inRange positive suits ⟨geometry 0, placement.xs, placement.ys⟩
      zero.width zero.height present with same | ⟨others, target, success⟩
    · simp only [same, if_true]
      exact ⟨_, rfl, present ▸ made none (.inl rfl)⟩
    · by_cases same : TileGrid.matchesFrameSize ⟨geometry 0, placement.xs, placement.ys⟩
          (unitObus parts) own = true
      · simp only [same, if_true]
        exact ⟨_, rfl, present ▸ made none (.inl rfl)⟩
      · simp only [same, success]
        exact ⟨_, rfl, present ▸ made (some target) (.inr others)⟩

/-- All tiles of a unit are put together to the unit with one tile group for each frame. -/
theorem merge_run {count capacity : Nat} {last : Option TileLayout} {behind : DecoderState}
    {packet : Packet} {parts : List UnitPart} {geometry : Nat → TileGeometry}
    (repacker : TileRepacker)
    (unit : UnitTiles count capacity last repacker.decoder packet parts behind geometry)
    (config : repacker.config = ⟨count, capacity⟩) :
    merge ((List.range count).map (tileSlot packet parts geometry))
      (tileSlot packet parts geometry 0) repacker =
        .ok (packet.withData (mergedUnit parts)) { repacker with decoder := behind } := by
  obtain ⟨template, made, fits⟩ := templateFor_eq_ok unit
  have whole := Assemble.unit_eq_ok unit.mergeable unit.inRange unit.tiles.1 fits
  have parsed : Decode.parseUnit (tileSlot packet parts geometry 0).unit repacker.decoder =
      .ok (unitObus parts) behind := unit.mergeable.parsed
  have data : written behind.sequence ((List.range count).map (tileSlot packet parts geometry))
      (tileSlot packet parts geometry 0) (unitObus parts) repacker.config.maxOutputSize =
        .ok (mergedUnit parts) := by
    rw [written, Checked.bind_of_ok made, config, whole]
  rw [merge_of_parsed parsed, data]
  rfl

end TileRepacker.Repack

/-! ## The packets of a unit -/

/-- The packets of a unit bring the tiles that wait for each other. -/
theorem UnitTiles.arrived {count capacity : Nat} {last : Option TileLayout}
    {state behind : DecoderState} {packet : Packet} {parts : List UnitPart}
    {geometry : Nat → TileGeometry}
    (unit : UnitTiles count capacity last state packet parts behind geometry) {order : List Nat}
    (perm : order.Perm (List.range count)) :
    Arrived count (tilePacket packet parts geometry) (tileSlot packet parts geometry) order := by
  obtain ⟨placement, -, -, placed⟩ := unit.placed
  have inside : ∀ tile ∈ order, tile < count := fun tile member =>
    List.mem_range.1 (perm.mem_iff.1 member)
  refine ⟨perm.nodup_iff.2 List.nodup_range, inside, fun _ _ => rfl, fun tile member => ?_,
    fun _ _ _ _ => ⟨rfl, rfl, rfl, rfl⟩⟩
  obtain ⟨fits, within⟩ := unit.mergeable.tileInfo_fits unit.inRange tile
    (placed tile (inside tile member)).words
  exact ⟨(TileInfo.splitPacket_prepend fits rfl within).2, rfl⟩

namespace TileRepacker

/-- With all tiles the unit is written that they were taken from. -/
theorem completed_unit {count capacity : Nat} {last : Option TileLayout} {behind : DecoderState}
    {packet : Packet} {parts : List UnitPart} {geometry : Nat → TileGeometry}
    {repacker : TileRepacker}
    (unit : UnitTiles count capacity last repacker.decoder packet parts behind geometry)
    (config : repacker.config = ⟨count, capacity⟩) :
    (repacker.withTiles count (tileSlot packet parts geometry) (List.range count)).completed =
      (.ok (some (packet.withData (mergedUnit parts))),
        { repacker with slots := List.replicate count none, filled := 0, decoder := behind }) := by
  have waiting : (repacker.withTiles count (tileSlot packet parts geometry)
      (List.range count)).waiting = (List.range count).map (tileSlot packet parts geometry) := by
    rw [waiting_withTiles, List.filter_eq_self.2 fun tile member => decide_eq_true member]
  obtain ⟨rest, row⟩ : ∃ rest, (List.range count).map (tileSlot packet parts geometry) =
      tileSlot packet parts geometry 0 :: rest := by
    have positive := unit.tiles.1
    obtain ⟨others, rfl⟩ : ∃ others, count = others + 1 := ⟨count - 1, by omega⟩
    rw [List.range_succ_eq_map]
    exact ⟨_, rfl⟩
  have merged := Repack.merge_run
    { repacker with slots := List.replicate count none, filled := 0 } unit config
  rw [row] at merged waiting
  have cleared : (repacker.withTiles count (tileSlot packet parts geometry)
      (List.range count)).clear =
        { repacker with slots := List.replicate count none, filled := 0 } := by
    rw [clear_withTiles, withTiles, tileSlots_nil]
    rfl
  simp only [completed, waiting, cleared, merged]

end TileRepacker

end Av1Tiling
