import Av1Tiling.Proofs.Packet.Arrival
import Av1Tiling.Proofs.Packet.Faultless

/-!
# Faults of a repacker

Packets may say anything. A repacker only ever leaves its range where tile 0 of a whole unit
declares more tiles than a word can count: every other call is answered, and every slot, every tile
of the grid, every span and every range of tile groups that is looked up is there.
-/

namespace Av1Tiling

namespace TileRepacker.Repack

/-- What is written from a unit that was parsed is written, or not for a reason, unless its tiles
    cannot be counted. -/
theorem written_fault_iff {state after : DecoderState} {unit : Bytes} {tiles : List TileSlot}
    {first : TileSlot} {parsed : List ParsedObu} {capacity : Nat}
    (inRange : state.InRange) (run : Decode.parseUnit unit state = .ok parsed after) :
    (∃ cause, written after.sequence tiles first parsed capacity = .error (.fault cause)) ↔
      Checked.wordBound ≤ first.info.geometry.tileCount := by
  obtain ⟨within, interprets⟩ := Decode.parseUnit_interprets run
  constructor
  · rintro ⟨cause, failed⟩
    rcases Checked.bind_eq_error.1 failed with refused | ⟨template, made, failed⟩
    · exact (templateFor_error refused).1 ⟨cause, rfl⟩
    · exact absurd ⟨cause, rfl⟩
        (Assemble.unit_error (fun item member => (within item member).header)
          (templateFor_sided interprets inRange made) failed)
  · intro large
    cases made : templateFor after.sequence tiles first parsed with
    | error failure =>
      obtain ⟨cause, rfl⟩ := (templateFor_error made).2 large
      refine ⟨cause, ?_⟩
      rw [written, made]
      rfl
    | ok template =>
      have collected := (templateFor_sound made).1
      exact absurd large (Nat.not_le.2 (TileGrid.collect_ok_word collected))

end TileRepacker.Repack

/-! ## What is looked up -/

/-- Among `count` tiles of which the first has this geometry there are the top of each column, the
    left end of each row and the whole first row. -/
structure TileGeometry.Finds (first : TileGeometry) (count : Nat) : Prop where
  divisor : first.columns ≠ 0
  row : first.columns ≤ count
  top : ∀ index < count, index % first.columns < count
  left : ∀ index < count, index % first.columns ≤ index ∧ index - index % first.columns < count

theorem TileGeometry.finds {first : TileGeometry} {count : Nat} (positive : 1 ≤ count)
    (total : first.tileCount = count) : first.Finds count := by
  rw [tileCount] at total
  have columns : 0 < first.columns := Nat.pos_of_mul_pos_right (total ▸ positive)
  have rows : 0 < first.rows := Nat.pos_of_mul_pos_left (total ▸ positive)
  have row : first.columns ≤ count := total ▸ Nat.le_mul_of_pos_right _ rows
  refine ⟨Nat.ne_of_gt columns, row, fun index _ => ?_, fun index inside => ?_⟩
  · exact Nat.lt_of_lt_of_le (Nat.mod_lt index columns) row
  · exact ⟨Nat.mod_le index _, Nat.lt_of_le_of_lt (Nat.sub_le ..) inside⟩

/-- Wherever a tile group is met while the unit is written, every tile has the tile groups of its
    frame up to this one. -/
def Template.Ranges (template : Template) (parsed : List ParsedObu) (capacity : Nat) : Prop :=
  ∀ front obu group back assembly, parsed = front ++ ⟨obu, .tileGroup group⟩ :: back →
    front.forM (Assemble.obu template) ⟨.empty capacity, none, 0, 0⟩ = .ok () assembly →
    assembly.frame.isSome = true →
      assembly.firstGroup ≤ assembly.groups + 1 ∧
        ∀ slot ∈ template.tiles, assembly.groups + 1 ≤ slot.info.groups.length

theorem Decode.Outcome.waiting {state after : DecoderState} {obu : Obu} {group : TileGroup}
    (outcome : Outcome state obu (.tileGroup group) after) :
    ∃ frame, state.pending = some frame := by
  cases outcome with
  | tileGroup type waiting => exact ⟨_, waiting⟩
  | lastTileGroup type waiting => exact ⟨_, waiting⟩

theorem TileRepacker.Repack.templateFor_ranges {state after : DecoderState} {unit : Bytes}
    {tiles : List TileSlot} {first : TileSlot} {parsed : List ParsedObu} {template : Template}
    (inRange : state.InRange) (nonempty : tiles ≠ [])
    (run : Decode.parseUnit unit state = .ok parsed after)
    (made : templateFor after.sequence tiles first parsed = .ok template) (capacity : Nat) :
    template.Ranges parsed capacity := by
  obtain ⟨within, interprets⟩ := Decode.parseUnit_interprets run
  obtain ⟨-, -, same, counted, -⟩ := templateFor_sound made
  rw [interprets.countP_type] at counted
  rintro front obu group back assembly rfl wrote opened
  obtain ⟨between, before, later⟩ := Decode.Interprets.split interprets
  obtain ⟨_, interpreted, -⟩ := Decode.Interprets.cons_iff.1 later
  obtain ⟨walked, -⟩ := Assemble.obus_run before (.start template capacity state.pending)
    (fun item member => (within item (List.mem_append_left _ member)).header) inRange
    (same ▸ nonempty) wrote
  obtain ⟨header, waiting⟩ := (Decode.interpret_outcome interpreted).waiting
  obtain ⟨frame, open_⟩ := Option.isSome_iff_exists.1 opened
  obtain ⟨earlier, since, -, split, -, -, start⟩ := walked.opened frame header open_ waiting
  have groups := walked.groups
  rw [List.nil_append] at groups split
  have total := split.groupCount_eq
  refine ⟨by omega, fun slot member => ?_⟩
  have all := counted slot (same ▸ member)
  rw [groupCount, List.countP_append, List.countP_cons_of_pos rfl] at all
  rw [groupCount] at groups
  omega

namespace TileRepacker

open Repack

variable {repacker : TileRepacker}

/-- There is a slot for each tile, and the spans of what waits lie inside of its unit. -/
structure Sound (repacker : TileRepacker) : Prop where
  slots : repacker.slots.length = repacker.config.tileCount
  place : ∀ packet tile slot, slotFor repacker packet = .ok (tile, slot) →
    tile < repacker.slots.length ∧ slot.info.Within slot.unit
  waiting : ∀ slot ∈ repacker.waiting, slot.info.Within slot.unit

theorem Waits.sound {packets : List Packet} (waits : repacker.Waits packets) : repacker.Sound := by
  have length : repacker.slots.length = repacker.config.tileCount := by
    obtain ⟨_, _, _, -, slots, -⟩ := waits.placed
    rw [slots, length_tileSlots]
  refine ⟨length, fun packet tile slot fits => ?_, fun slot member => ?_⟩
  · obtain ⟨-, inside, -, -, holds⟩ := slotFor_eq_ok_iff.1 fits
    exact ⟨length ▸ inside, TileInfo.splitPacket_within holds.split⟩
  · obtain ⟨packet, -, holds⟩ := waits.holds member
    exact TileInfo.splitPacket_within holds.split

/-- What comes of a whole unit is a fault just where its tiles cannot be counted. -/
theorem completed_fault_iff {first : TileSlot} {rest : List TileSlot}
    (inRange : repacker.decoder.InRange) (waiting : repacker.waiting = first :: rest) :
    (∃ cause, repacker.completed.1 = .error (.fault cause)) ↔
      (∃ parsed behind, Decode.parseUnit first.unit repacker.decoder = .ok parsed behind) ∧
        Checked.wordBound ≤ first.info.geometry.tileCount := by
  cases run : Decode.parseUnit first.unit repacker.decoder with
  | error cause failed =>
    rw [completed_of_unparsed waiting run]
    constructor
    · rintro ⟨fault, same⟩
      have known := ((Decode.parseUnit_safe _).of_error inRange run).1
      exact absurd (Failure.isFault_map.1 ⟨fault, Except.error.inj same⟩) known
    · rintro ⟨⟨_, _, ⟨⟩⟩, -⟩
  | ok parsed behind =>
    have merged : merge (first :: rest) first repacker.clear = _ := merge_of_parsed run
    have config : repacker.clear.config = repacker.config := rfl
    have known : (∃ cause, written behind.sequence (first :: rest) first parsed
        repacker.config.maxOutputSize = .error (.fault cause)) ↔ _ :=
      written_fault_iff inRange run
    have parses : ∃ items after, (EStateM.Result.ok parsed behind :
        EStateM.Result (Failure ObuError) DecoderState _) = .ok items after := ⟨parsed, behind, rfl⟩
    rw [and_iff_right parses, ← known]
    simp only [completed, waiting, merged, config]
    rcases written behind.sequence (first :: rest) first parsed repacker.config.maxOutputSize with
      (error | cause) | data
    · constructor <;> rintro ⟨_, ⟨⟩⟩
    · exact iff_of_true ⟨cause, rfl⟩ ⟨cause, rfl⟩
    · constructor <;> rintro ⟨_, ⟨⟩⟩

/-- Whatever packets have come, the next one is answered without a fault, unless it completes a
    unit that can be parsed and of which tile 0 declares more tiles than a word can count. There is
    a slot for each tile, and spans lie inside of their units. In a grid of the right number of
    tiles those are there that others are compared with, and of each frame that is written each tile
    has all tile groups. -/
theorem Ran.fault_iff {config : RepackConfig} {events : List Event}
    (ran : Ran config events repacker) (packet : Packet) :
    repacker.Sound ∧
    ((∃ cause, (repacker.filter packet).1 = .error (.fault cause)) ↔
      WholeUnit config.tileCount (packet :: taken events) ∧ ∃ first rest,
        Lined config.tileCount (packet :: taken events) (first :: rest) ∧
        (∃ parsed behind, Decode.parseUnit first.unit repacker.decoder = .ok parsed behind) ∧
        Checked.wordBound ≤ first.info.geometry.tileCount) ∧
    ∀ first rest, Lined config.tileCount (packet :: taken events) (first :: rest) →
      (first.info.geometry.tileCount = config.tileCount →
        first.info.geometry.Finds config.tileCount) ∧
      ∀ parsed behind template,
        Decode.parseUnit first.unit repacker.decoder = .ok parsed behind →
        templateFor behind.sequence (first :: rest) first parsed = .ok template →
        template.Ranges parsed config.maxOutputSize := by
  have inRange := ran.inRange
  obtain ⟨rfl, waits⟩ := ran.waits
  refine ⟨waits.sound, ?_, fun first rest _ => ⟨TileGeometry.finds waits.positive, ?_⟩⟩
  · by_cases whole : WholeUnit repacker.config.tileCount (packet :: taken events)
    · obtain ⟨full, filtered, same, lined⟩ := waits.filter_whole whole
      obtain ⟨first, rest, -, -, own, -, -⟩ := lined.first waits.positive
      have decoder : full.decoder = repacker.decoder := (congrArg TileRepacker.decoder same :)
      have known := completed_fault_iff (decoder ▸ inRange) own
      rw [filtered, known, decoder, and_iff_right whole]
      constructor
      · exact fun ⟨parses, large⟩ => ⟨first, rest, own ▸ lined, parses, large⟩
      · rintro ⟨other, others, again, found⟩
        have unique := lined.unique whole.companions.distinct again
        rw [own] at unique
        obtain ⟨rfl, -⟩ := List.cons.inj unique
        exact found
    · refine iff_of_false ?_ fun known => whole known.1
      rintro ⟨cause, answer⟩
      have meets := waits.filter packet
      generalize repacker.filter packet = outcome at meets answer
      cases meets with
      | refused => cases answer
      | waits => cases answer
      | completes all => exact whole all
  · exact fun parsed behind template run made =>
      templateFor_ranges inRange (List.cons_ne_nil first rest) run made _

/-- The only tile of a unit, in a grid of 3 columns and 2863311531 rows: the product is one above
    twice as much as a word can count. -/
def hugeGrid : Packet where
  data := 2 :: List.replicate 63 0 ++ 2 :: List.replicate 127 0 ++ 1 :: List.replicate 3 0 ++
    [64, 0, 0, 0, 64, 0, 0, 0, 3, 0, 0, 0, 0xAB, 0xAA, 0xAA, 0xAA] ++ List.replicate 8 0 ++
    [64, 0, 0, 0, 64, 0, 0, 0] ++ 2 :: List.replicate 71 0 ++ [0x12, 0x00]
  pts := none
  dts := none
  flags := 0
  streamIndex := 0
  tileIndex := some 0

/-- The first packet of a stream says that there are more tiles than a word can count. -/
theorem Ran.fault_iff_huge_grid :
    ∃ start, ofConfig ⟨1, 64⟩ = .ok start ∧ start.Sound ∧
      ∃ cause, (start.filter hugeGrid).1 = .error (.fault cause) := by
  let info : TileInfo :=
    ⟨⟨64, 64, 3, 2863311531, 0, 0, 64, 64⟩, [⟨.temporalDelimiter, 2, 0⟩], 2, []⟩
  have split : TileInfo.splitPacket hugeGrid.data = .ok (info, [0x12, 0x00]) := by decide +kernel
  have whole : WholeUnit 1 [hugeGrid] := by decide +kernel
  have lined : Lined 1 [hugeGrid] [⟨info, hugeGrid.withData [0x12, 0x00]⟩] := by
    refine ⟨rfl, fun tile slot found => ?_⟩
    obtain ⟨inside, rfl⟩ := List.getElem?_eq_some_iff.1 found
    obtain rfl : tile = 0 := Nat.lt_one_iff.1 inside
    exact ⟨hugeGrid, List.mem_cons_self, rfl, split, rfl⟩
  obtain ⟨parsed, behind, run, -⟩ := (by decide +kernel : Step.Succeeds (fun _ _ => True)
    (Decode.parseUnit [0x12, 0x00] .empty)).eq_ok
  have opened : Ran ⟨1, 64⟩ [] ⟨⟨1, 64⟩, [none], 0, .empty⟩ := .opened rfl
  obtain ⟨sound, fault, -⟩ := opened.fault_iff hugeGrid
  exact ⟨_, rfl, sound, fault.2 ⟨whole, _, _, lined, ⟨parsed, behind, run⟩, by decide⟩⟩

/-- A packet can make a repacker leave its range. -/
theorem not_never_faults :
    ¬∀ (config : RepackConfig) (events : List Event) (repacker : TileRepacker) (packet : Packet),
      Ran config events repacker → GoesOn (repacker.filter packet).1 := by
  intro never
  have answer : ((⟨⟨1, 64⟩, [none], 0, .empty⟩ : TileRepacker).filter hugeGrid).1 =
      .error (.fault (.aboveWord 8589934593)) := by
    decide +kernel
  exact never ⟨1, 64⟩ [] _ hugeGrid (.opened rfl) _ answer

end TileRepacker

end Av1Tiling
