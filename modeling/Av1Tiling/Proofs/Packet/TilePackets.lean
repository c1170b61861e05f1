import Av1Tiling.Proofs.Packet.Slots
import Av1Tiling.Proofs.Packet.Survey
import Mathlib.Data.List.Forall2

/-!
# Tile packets

A splitter is handed whatever units there are. What it makes of one is either the unit as it was, or
tile packets, and all that a tile packet says of its unit is true: which OBUs it has, and where the
bytes of the tile are in each of its tile groups (`Packet.Carries`).
-/

namespace Av1Tiling

/-! ## Splitters in the middle of a stream -/

theorem TileGeometry.checkRange_eq_ok {name : String} {value min max : Nat} :
    checkRange name value min max = .ok () ↔ min ≤ value ∧ value ≤ max := by
  rw [checkRange]
  by_cases inside : min ≤ value ∧ value ≤ max <;> simp [inside]

/-- The numbers of a geometry that is in range can be told. -/
theorem TileGeometry.words_of_validate {geometry : TileGeometry}
    (valid : geometry.validate = .ok ()) :
    ∀ value ∈ TileInfo.geometryWords geometry, TileInfo.Word value := by
  obtain ⟨⟨⟩, width, valid⟩ := Checked.bind_eq_ok.1 valid
  obtain ⟨⟨⟩, height, valid⟩ := Checked.bind_eq_ok.1 valid
  obtain ⟨⟨⟩, columns, valid⟩ := Checked.bind_eq_ok.1 valid
  obtain ⟨⟨⟩, rows, valid⟩ := Checked.bind_eq_ok.1 valid
  obtain ⟨⟨⟩, x, valid⟩ := Checked.bind_eq_ok.1 valid
  obtain ⟨⟨⟩, y, valid⟩ := Checked.bind_eq_ok.1 valid
  obtain ⟨⟨⟩, tileWidth, valid⟩ := Checked.bind_eq_ok.1 valid
  obtain ⟨⟨⟩, tileHeight, -⟩ := Checked.bind_eq_ok.1 valid
  have word {name : String} {value min max : Nat} (least : max < 2 ^ 32)
      (inside : checkRange name value min max = .ok ()) : TileInfo.Word value :=
    Nat.lt_of_le_of_lt (checkRange_eq_ok.1 inside).2 least
  simp only [TileInfo.geometryWords, List.forall_mem_cons]
  exact ⟨word (by decide) width, word (by decide) height, word (by decide) columns,
    word (by decide) rows, word (by decide) x, word (by decide) y, word (by decide) tileWidth,
    word (by decide) tileHeight, by rintro _ ⟨⟩⟩

namespace TileSplitter

/-- The splitters that one with `config` becomes by units and restarts. -/
inductive Ran (config : SplitConfig) : TileSplitter → Prop
  | opened {splitter : TileSplitter} (success : ofConfig config = .ok splitter) :
      Ran config splitter
  | filter {splitter : TileSplitter} (ran : Ran config splitter) (packet : Packet) :
      Ran config (splitter.filter packet).2
  | reset {splitter : TileSplitter} (ran : Ran config splitter) : Ran config splitter.reset

/-- What holds of a splitter between two units. -/
structure Sound (config : SplitConfig) (splitter : TileSplitter) : Prop where
  own : splitter.config = config
  geometry : ∀ geometry, config.geometry = some geometry →
    ∀ value ∈ TileInfo.geometryWords geometry, TileInfo.Word value
  decoder : splitter.decoder.InRange
  last : ∀ layout, splitter.lastLayout = some layout → layout.Framed

variable {config : SplitConfig} {splitter between behind : TileSplitter} {packet : Packet}
  {unit : List ParsedObu}

theorem sound_of_ofConfig (success : ofConfig config = .ok splitter) : Sound config splitter := by
  rw [ofConfig] at success
  split at success
  next valid =>
    cases success
    refine ⟨rfl, fun geometry present => ?_, DecoderState.empty_inRange, by rintro _ ⟨⟩⟩
    rw [SplitConfig.validate, present] at valid
    obtain ⟨⟨⟩, checked, -⟩ := Checked.bind_eq_ok.1 valid
    exact geometry.words_of_validate checked
  next => cases success

theorem Sound.reset (sound : Sound config splitter) : Sound config splitter.reset :=
  ⟨sound.own, sound.geometry, DecoderState.empty_inRange, by rintro _ ⟨⟩⟩

namespace Split

theorem lift_eq_ok {α : Type} {result : Except PacketError α} {value : α} :
    (liftM result : Split α) splitter = .ok value behind ↔
      result = .ok value ∧ behind = splitter := by
  cases result with
  | error cause =>
    constructor
    · rintro ⟨⟩
    · rintro ⟨⟨⟩, -⟩
  | ok found =>
    constructor
    · rintro ⟨⟩
      exact ⟨rfl, rfl⟩
    · rintro ⟨⟨⟩, rfl⟩
      rfl

/-- The splitter keeps what `holds` of it whether or not `step` succeeds. -/
abbrev Keeps {α : Type} (holds : TileSplitter → Prop) (step : Split α) : Prop :=
  Step.Ensures holds (fun _ => True) step fun _ => True

variable {holds : TileSplitter → Prop}

theorem Keeps.lift {α : Type} (result : Except PacketError α) :
    Keeps holds (liftM result : Split α) := by
  cases result with
  | error cause => exact .throw trivial
  | ok value => exact .pure trivial

/-- The layout of the survey may be kept as the last one of several tiles. -/
def Admits (holds : TileSplitter → Prop) (survey : Survey) : Prop :=
  ∀ count layout, survey.tileCount = some count → 1 < count → survey.layout = some layout →
    ∀ splitter, holds splitter → holds { splitter with lastLayout := some layout }

theorem splitLayout_keeps {survey : Survey} (admits : Admits holds survey) :
    Keeps holds (splitLayout survey) := by
  unfold splitLayout
  cases counted : survey.tileCount with
  | none => exact Step.Ensures.get.bind fun _ _ => .pure trivial
  | some count =>
    cases found : survey.layout with
    | none => exact .pure trivial
    | some layout =>
      refine .ite (fun several => ?_) fun _ => .pure trivial
      exact (Step.Ensures.modify fun splitter held =>
        admits count layout counted several found splitter held).bind fun _ _ => .pure trivial

theorem placeUnit_keeps (layout : Option TileLayout) : Keeps holds (placeUnit layout) := by
  refine Step.Ensures.get.bind fun splitter _ => ?_
  cases splitter.config.geometry with
  | some geometry => exact .pure trivial
  | none =>
    cases layout with
    | some layout => exact .pure trivial
    | none =>
      cases splitter.decoder.sequence with
      | some sequence => exact .pure trivial
      | none => exact .throw trivial

theorem tilePackets_keeps
    (admits : ∀ survey, Survey.ofUnit unit = .ok survey → Admits holds survey) :
    Keeps holds (tilePackets packet unit) := by
  unfold tilePackets
  cases success : Survey.ofUnit unit with
  | error cause => exact Step.Ensures.throw_bind trivial
  | ok survey =>
    refine (splitLayout_keeps (admits survey success)).bind fun layout _ => ?_
    cases layout with
    | some layout =>
      have each (tile : Nat) : Keeps holds (do
          let geometry ← placeIn layout tile
          tilePacket packet (survey.tileInfo packet.data unit geometry tile) tile) :=
        (Keeps.lift _).bind fun _ _ => Keeps.lift _
      exact (Step.Ensures.mapM fun tile _ => each tile).mono fun _ _ => trivial
    | none =>
      refine (placeUnit_keeps _).bind fun _ _ => Step.Ensures.get.bind fun _ _ => ?_
      exact (Keeps.lift _).bind fun _ _ => .pure trivial

end Split

/-- What is known of a unit that could be parsed, and of the splitter that has gone through it. -/
structure Arrived (config : SplitConfig) (splitter : TileSplitter) (packet : Packet)
    (unit : List ParsedObu) (decoder : DecoderState) : Prop where
  read : (Obu.readAll packet.data).1 = (unit.map ParsedObu.obu).map .ok
  within : ∀ item ∈ unit, item.obu.Within packet.data
  run : Decode.Interprets splitter.decoder unit decoder
  inRange : splitter.decoder.InRange
  sound : Sound config { splitter with decoder }

theorem Sound.arrived (sound : Sound config splitter) {decoder : DecoderState}
    (parsed : Decode.parseUnit packet.data splitter.decoder = .ok unit decoder) :
    Arrived config splitter packet unit decoder := by
  obtain ⟨within, run⟩ := Decode.parseUnit_interprets parsed
  have inRange := ((Decode.parseUnit_safe packet.data).of_ok sound.decoder parsed).2
  exact ⟨Decode.parseUnit_reads parsed, within, run, sound.decoder, sound.own, sound.geometry,
    inRange, sound.last⟩

namespace Arrived

variable {decoder : DecoderState} {survey : Survey}

theorem type (arrived : Arrived config splitter packet unit decoder) :
    ∀ item ∈ unit, ObuType.ofCode item.obu.header.type.code = item.obu.header.type := by
  intro item member
  have present : .ok item.obu ∈ (Obu.readAll packet.data).1 := by
    rw [arrived.read]
    exact List.mem_map_of_mem (List.mem_map_of_mem member)
  exact Obu.readMany_type present

theorem surveyed (arrived : Arrived config splitter packet unit decoder)
    (success : Survey.ofUnit unit = .ok survey) : Survey.empty.Surveyed none unit survey :=
  Survey.ofUnit_surveyed arrived.run arrived.inRange success

/-- The layout that a survey comes to is that of a frame. -/
theorem framed (arrived : Arrived config splitter packet unit decoder)
    (success : Survey.ofUnit unit = .ok survey) {layout : TileLayout}
    (found : survey.layout = some layout) : layout.Framed := by
  have surveyed := arrived.surveyed success
  rw [surveyed.layout] at found
  obtain ⟨frame, present, cut⟩ := Option.bind_eq_some_iff.1 found
  obtain ⟨own, same, framed, -⟩ := (surveyed.begun frame present).layout
  obtain rfl := Option.some.inj (same.symm.trans cut)
  exact framed

end Arrived

/-- What a unit is split into, and what is left of the splitter. -/
theorem filter_cases (splitter : TileSplitter) (packet : Packet) :
    (∃ cause state, Decode.parseUnit packet.data splitter.decoder = .error cause state ∧
      splitter.filter packet = ([packet], splitter)) ∨
    ∃ unit decoder, Decode.parseUnit packet.data splitter.decoder = .ok unit decoder ∧
      ((∃ packets behind, Split.tilePackets packet unit { splitter with decoder } =
          .ok packets behind ∧ splitter.filter packet = (packets, behind)) ∨
        ∃ cause behind, Split.tilePackets packet unit { splitter with decoder } =
          .error cause behind ∧ splitter.filter packet = ([packet], behind)) := by
  cases parsed : Decode.parseUnit packet.data splitter.decoder with
  | error cause state => exact .inl ⟨cause, state, rfl, by rw [filter, parsed]⟩
  | ok unit decoder =>
    refine .inr ⟨unit, decoder, rfl, ?_⟩
    cases split : Split.tilePackets packet unit { splitter with decoder } with
    | ok packets behind =>
      refine .inl ⟨packets, behind, rfl, ?_⟩
      rw [filter, parsed]
      simp only [split]
    | error cause behind =>
      refine .inr ⟨cause, behind, rfl, ?_⟩
      rw [filter, parsed]
      simp only [split]

/-- What holds of a splitter in front of a unit holds behind it. -/
theorem filter_keeps (holds : TileSplitter → Prop) (held : holds splitter) (packet : Packet)
    (onward : ∀ unit decoder, Decode.parseUnit packet.data splitter.decoder = .ok unit decoder →
      holds { splitter with decoder } ∧
        ∀ survey, Survey.ofUnit unit = .ok survey → Split.Admits holds survey) :
    holds (splitter.filter packet).2 := by
  obtain ⟨_, _, -, same⟩ | ⟨unit, decoder, parsed, outcome⟩ := splitter.filter_cases packet
  · rw [same]
    exact held
  · obtain ⟨here, admits⟩ := onward unit decoder parsed
    have keeps : Split.Keeps holds (Split.tilePackets packet unit) := Split.tilePackets_keeps admits
    obtain ⟨packets, behind, split, same⟩ | ⟨cause, behind, split, same⟩ := outcome
    · rw [same]
      exact (keeps.of_ok here split).2
    · rw [same]
      exact (keeps.of_error here split).2

theorem Sound.filter (sound : Sound config splitter) (packet : Packet) :
    Sound config (splitter.filter packet).2 := by
  refine filter_keeps _ sound packet fun unit decoder parsed => ?_
  have arrived := sound.arrived parsed
  refine ⟨arrived.sound, fun survey success count layout _ _ found splitter sound => ?_⟩
  refine ⟨sound.own, sound.geometry, sound.decoder, ?_⟩
  rintro _ ⟨⟩
  exact arrived.framed success found

theorem Ran.sound (ran : Ran config splitter) : Sound config splitter := by
  induction ran with
  | opened success => exact sound_of_ofConfig success
  | filter ran packet ih => exact ih.filter packet
  | reset ran ih => exact ih.reset

end TileSplitter

/-! ## Units that end whole -/

namespace TileSplitter

/-- The last frame of the unit has at most one tile, though there are tile groups of a frame of
    several. Frames are compared where they have tile groups, which the last one need not have. -/
def EndsWhole (unit : List ParsedObu) : Prop :=
  (∃ held ∈ framedGroups none unit, ∃ layout ∈ held.frame.layout, 1 < layout.tileCount) ∧
    ∃ layout ∈ (lastFrame none unit).bind FrameHeader.layout, layout.tileCount ≤ 1

instance (unit : List ParsedObu) : Decidable (EndsWhole unit) :=
  inferInstanceAs (Decidable (_ ∧ _))

/-- The splitters that one with `config` becomes by restarts and units that do not end whole. -/
inductive RanSteady (config : SplitConfig) : TileSplitter → Prop
  | opened {splitter : TileSplitter} (success : ofConfig config = .ok splitter) :
      RanSteady config splitter
  | filter {splitter : TileSplitter} (ran : RanSteady config splitter) (packet : Packet)
      (steady : ∀ unit decoder, Decode.parseUnit packet.data splitter.decoder =
        .ok unit decoder → ¬EndsWhole unit) :
      RanSteady config (splitter.filter packet).2
  | reset {splitter : TileSplitter} (ran : RanSteady config splitter) :
      RanSteady config splitter.reset

end TileSplitter

/-! ## What a tile packet says -/

/-- The span is where the bytes of a tile are in the unit, and empty if the group has none. -/
structure DataSpan.Locates (span : DataSpan) (data : Bytes) (tile : Nat) (held : GroupObu) :
    Prop where
  carried : ∀ own ∈ held.group.tiles, own.tile = tile →
    span = ⟨own.size, held.obu.payloadOffset + own.offset⟩ ∧
      data.slice span.offset span.size = own.of held.obu.payload
  absent : (∀ own ∈ held.group.tiles, own.tile ≠ tile) → span = .empty
  inside : span.stop ≤ data.length

/-- A tile info that says of a unit which OBUs it has, and where a tile is in each of its tile
    groups. -/
structure TileInfo.Describes (info : TileInfo) (data : Bytes) (unit : List ParsedObu)
    (tile : Nat) : Prop where
  obus : info.obus = unit.map fun item =>
    ⟨item.obu.header.type, item.obu.unitSize, item.obu.payload.length⟩
  all : (framedGroups none unit).map (·.obu) =
    (unit.map ParsedObu.obu).filter (·.header.type = .tileGroup)
  parsed : ∀ held ∈ framedGroups none unit, ∃ layout, held.frame.layout = some layout ∧
    TileGroup.parse held.obu.payload layout = .ok held.group
  groups : List.Forall₂ (fun held span => DataSpan.Locates span data tile held.toGroupObu)
    (framedGroups none unit) info.groups

/-- A packet of the same times and stream that carries a tile of a unit: the whole unit, behind a
    tile info that describes it. -/
structure Packet.Carries (carrier packet : Packet) (unit : List ParsedObu) (tile : Nat) : Prop where
  alike : carrier.Alike packet
  told : ∃ info, TileInfo.splitPacket carrier.data = .ok (info, packet.data) ∧
    info.Describes packet.data unit tile

theorem GroupObu.span_locates {held : GroupObu} {layout : TileLayout} {data : Bytes}
    (within : held.obu.Within data)
    (parsed : TileGroup.Parsed held.obu.payload layout held.group) (tile : Nat) :
    (held.span tile).Locates data tile held := by
  obtain ⟨inside, bytes⟩ := held.span_inside within parsed tile
  refine ⟨?_, ?_, inside⟩
  · rintro own member rfl
    have distinct : held.indices.Nodup := by
      rw [indices, parsed.located.indices]
      exact List.nodup_range'
    have found := held.find?_eq_some distinct member
    refine ⟨?_, ?_⟩
    · rw [span, TileSplitter.Survey.spanIn, placed, found]
    · rw [bytes, GroupObu.tile, found]
  · intro absent
    have none : held.group.tiles.find? (·.tile == tile) = none := by
      simpa [List.find?_eq_none] using absent
    rw [span, TileSplitter.Survey.spanIn, placed, none]

/-- What can be put in front of a unit. -/
theorem TileInfo.of_prepend {info : TileInfo} {unit data : Bytes}
    (success : info.prepend unit = .ok data) :
    info.unitSize = unit.length ∧ info.obus.length ≤ maxObus ∧ info.groups.length ≤ maxGroups := by
  rw [prepend] at success
  by_cases size : info.unitSize ≠ unit.length
  · rw [if_pos size] at success
    cases success
  · rw [if_neg size] at success
    obtain ⟨bytes, encoded, -⟩ := Checked.bind_eq_ok.1 success
    rw [encode] at encoded
    by_cases obus : maxObus < info.obus.length
    · rw [if_pos obus] at encoded
      cases encoded
    · rw [if_neg obus] at encoded
      by_cases groups : maxGroups < info.groups.length
      · simp only [if_pos groups] at encoded
        cases encoded
      · exact ⟨Decidable.not_not.1 size, Nat.not_lt.1 obus, Nat.not_lt.1 groups⟩

/-- Steps that leave the state alone yield one value for each item. -/
theorem Step.mapM_sound {ε σ α β : Type} {items : List α} {each : α → EStateM ε σ β}
    {yields : α → β → Prop} {state behind : σ} {found : List β}
    (known : ∀ item value before after, each item before = .ok value after →
      after = before ∧ yields item value)
    (run : items.mapM each state = .ok found behind) :
    behind = state ∧ List.Forall₂ yields items found := by
  induction items generalizing state found with
  | nil =>
    cases run
    exact ⟨rfl, .nil⟩
  | cons item rest ih =>
    rw [List.mapM_cons] at run
    obtain ⟨value, between, first, run⟩ := Step.bind_eq_ok.1 run
    obtain ⟨values, _, later, run⟩ := Step.bind_eq_ok.1 run
    cases run
    obtain ⟨rfl, here⟩ := known item value state between first
    obtain ⟨rfl, others⟩ := ih later
    exact ⟨rfl, .cons here others⟩

namespace TileSplitter

variable {config : SplitConfig} {splitter behind : TileSplitter} {packet carrier : Packet}
  {unit : List ParsedObu} {survey : Survey} {state last : DecoderState}

theorem Survey.Surveyed.spans_eq (surveyed : Survey.empty.Surveyed none unit survey) (tile : Nat) :
    survey.spans tile = (framedGroups none unit).map (·.span tile) := by
  rw [Survey.spans, surveyed.groups, Survey.empty, List.nil_append, List.map_map]
  rfl

/-- The groups of a unit that was surveyed lie in it, and were parsed. -/
theorem Survey.Surveyed.locates (surveyed : Survey.empty.Surveyed none unit survey)
    (within : ∀ item ∈ unit, item.obu.Within packet.data) (tile : Nat) {held : FramedGroup}
    (member : held ∈ framedGroups none unit) :
    (held.span tile).Locates packet.data tile held.toGroupObu := by
  obtain ⟨-, layout, -, parsed, -⟩ := surveyed.each held member
  have present : held.obu ∈ (unit.map ParsedObu.obu).filter (·.header.type = .tileGroup) := by
    rw [← surveyed.all]
    exact List.mem_map_of_mem member
  obtain ⟨item, inUnit, same⟩ := List.mem_map.1 (List.mem_filter.1 present).1
  have inside : held.obu.Within packet.data := same ▸ within item inUnit
  exact held.span_locates inside (TileGroup.parse_sound parsed) tile

/-- A tile packet that is made of a unit carries the tile. -/
theorem Split.tilePacket_sound (surveyed : Survey.empty.Surveyed none unit survey)
    (within : ∀ item ∈ unit, item.obu.Within packet.data)
    (types : ∀ item ∈ unit, ObuType.ofCode item.obu.header.type.code = item.obu.header.type)
    {geometry : TileGeometry}
    (words : ∀ value ∈ TileInfo.geometryWords geometry, TileInfo.Word value) {tile index : Nat}
    (made : tilePacket packet (survey.tileInfo packet.data unit geometry tile) index =
      .ok carrier) :
    carrier.tileIndex = some index ∧ carrier.Alike packet ∧
      TileInfo.splitPacket carrier.data =
        .ok (survey.tileInfo packet.data unit geometry tile, packet.data) ∧
      (survey.tileInfo packet.data unit geometry tile).Describes packet.data unit tile := by
  rw [tilePacket] at made
  cases success : (survey.tileInfo packet.data unit geometry tile).prepend packet.data with
  | error cause =>
    rw [success] at made
    cases made
  | ok data =>
    rw [success] at made
    cases made
    obtain ⟨size, obus, groups⟩ := TileInfo.of_prepend success
    have small : packet.data.length < 2 ^ 32 := by
      rw [← size]
      exact Nat.mod_lt _ (by decide)
    have spans : (survey.tileInfo packet.data unit geometry tile).groups =
        (framedGroups none unit).map (·.span tile) := surveyed.spans_eq tile
    have inside : ∀ span ∈ (survey.tileInfo packet.data unit geometry tile).groups,
        span.stop ≤ packet.data.length := by
      intro span member
      rw [spans] at member
      obtain ⟨held, present, rfl⟩ := List.mem_map.1 member
      exact (surveyed.locates within tile present).inside
    have fits : (survey.tileInfo packet.data unit geometry tile).Fits := by
      refine ⟨obus, fun entry member => ?_, words, size ▸ small, groups, fun span member => ?_⟩
      · obtain ⟨item, present, rfl⟩ := List.mem_map.1 member
        exact (within item present).entry_fits (types item present) small
      · exact span.fits_of_inside (inside span member) small
    obtain ⟨same, split⟩ := TileInfo.splitPacket_prepend fits size inside
    obtain rfl := Except.ok.inj (same.symm.trans success)
    refine ⟨rfl, ⟨rfl, rfl, rfl, rfl⟩, split, rfl, surveyed.all, fun held member => ?_, ?_⟩
    · obtain ⟨-, layout, cut, parsed, -⟩ := surveyed.each held member
      exact ⟨layout, cut, parsed⟩
    · rw [spans, List.forall₂_map_right_iff]
      exact List.forall₂_same.2 fun held member => surveyed.locates within tile member

namespace Split

/-- What a unit is split by: the layout of its last frame, which is then kept, if its tile groups
    are of several tiles; the last such layout, if it has no tile groups; otherwise nothing. -/
theorem splitLayout_cases {chosen : Option TileLayout}
    (run : splitLayout survey splitter = .ok chosen behind) :
    (∃ layout, chosen = some layout ∧ survey.layout = some layout ∧
        ∃ count, survey.tileCount = some count ∧ 1 < count) ∨
      (survey.tileCount = none ∧ chosen = splitter.lastLayout ∧ behind = splitter) ∨
      chosen = none ∧ behind = splitter ∧ ∃ count, survey.tileCount = some count ∧
        (survey.layout.isSome = true → count ≤ 1) := by
  unfold splitLayout at run
  cases counted : survey.tileCount with
  | none =>
    simp only [counted, Step.get_bind] at run
    obtain ⟨same, kept⟩ := EStateM.Result.ok.inj run
    exact .inr (.inl ⟨rfl, same.symm, kept.symm⟩)
  | some count =>
    cases found : survey.layout with
    | none =>
      simp only [counted, found] at run
      cases run
      exact .inr (.inr ⟨rfl, rfl, count, rfl, by rintro ⟨⟩⟩)
    | some own =>
      simp only [counted, found] at run
      by_cases several : 1 < count
      · rw [if_pos several] at run
        cases run
        exact .inl ⟨own, rfl, rfl, count, rfl, several⟩
      · rw [if_neg several] at run
        cases run
        exact .inr (.inr ⟨rfl, rfl, count, rfl, fun _ => Nat.not_lt.1 several⟩)

/-- A unit that is split by a layout is split by that of its last frame or, if it has no tile
    groups, by the last one of several tiles. -/
theorem splitLayout_some {layout : TileLayout}
    (run : splitLayout survey splitter = .ok (some layout) behind) :
    survey.layout = some layout ∨ survey.tileCount = none ∧ splitter.lastLayout = some layout := by
  obtain ⟨_, ⟨⟩, found, -⟩ | ⟨uncounted, kept, -⟩ | ⟨⟨⟩, -⟩ := splitLayout_cases run
  · exact .inl found
  · exact .inr ⟨uncounted, kept.symm⟩

/-- A unit that is not split has no frames of several tiles. -/
theorem splitLayout_none (run : splitLayout survey splitter = .ok none behind) :
    behind = splitter ∧ ∀ count, survey.tileCount = some count → survey.layout.isSome = true →
      count ≤ 1 := by
  obtain ⟨_, ⟨⟩, -⟩ | ⟨uncounted, -, same⟩ | ⟨-, same, count, counted, few⟩ := splitLayout_cases run
  · refine ⟨same, fun count counted => ?_⟩
    rw [uncounted] at counted
    cases counted
  · refine ⟨same, fun other again => ?_⟩
    obtain rfl := Option.some.inj (counted.symm.trans again)
    exact few

/-- Where a unit is placed that is a single tile, in numbers that can be told. -/
theorem placeUnit_sound (sound : Sound config splitter) {layout : Option TileLayout}
    (framed : ∀ own, layout = some own → own.Framed) {geometry : TileGeometry}
    (run : placeUnit layout splitter = .ok geometry behind) :
    behind = splitter ∧ ∀ value ∈ TileInfo.geometryWords geometry, TileInfo.Word value := by
  have full {width height : Nat} (wide : width ≤ SuperblockGrid.maxSide)
      (high : height ≤ SuperblockGrid.maxSide) :
      ∀ value ∈ TileInfo.geometryWords (.fullFrame width height), TileInfo.Word value :=
    (TileGeometry.fullFrame_at (Nat.lt_of_le_of_lt wide (by decide))
      (Nat.lt_of_le_of_lt high (by decide))).words
  rw [placeUnit, Step.get_bind] at run
  cases configured : splitter.config.geometry with
  | some own =>
    simp only [configured] at run
    cases run
    exact ⟨rfl, sound.geometry _ (sound.own ▸ configured)⟩
  | none =>
    cases layout with
    | some own =>
      simp only [configured] at run
      cases run
      exact ⟨rfl, full (framed own rfl).width (framed own rfl).height⟩
    | none =>
      cases known : splitter.decoder.sequence with
      | none =>
        simp only [configured, known] at run
        cases run
      | some sequence =>
        simp only [configured, known] at run
        cases run
        have sides := (sound.decoder.sequence sequence known).dimensions
        exact ⟨rfl, full sides.width.2 sides.height.2⟩

/-- The packets are made of the tiles of the layout, in order. -/
def MadeOf (packet : Packet) (unit : List ParsedObu) (survey : Survey) (layout : TileLayout)
    (packets : List Packet) : Prop :=
  List.Forall₂ (fun tile carrier => ∃ geometry, placeIn layout tile = .ok geometry ∧
    tilePacket packet (survey.tileInfo packet.data unit geometry tile) tile = .ok carrier)
    (List.range layout.tileCount) packets

theorem MadeOf.length_eq {layout : TileLayout} {packets : List Packet}
    (made : MadeOf packet unit survey layout packets) : packets.length = layout.tileCount := by
  have counted := List.Forall₂.length_eq made
  rw [List.length_range] at counted
  exact counted.symm

/-- What tile packets are made of: a tile of the layout that the unit is split by, or the whole
    unit. -/
theorem tilePackets_sound {packets : List Packet}
    (run : tilePackets packet unit splitter = .ok packets behind) :
    ∃ survey, Survey.ofUnit unit = .ok survey ∧
      ((∃ layout, splitLayout survey splitter = .ok (some layout) behind ∧
        MadeOf packet unit survey layout packets) ∨
      ∃ between geometry carrier, splitLayout survey splitter = .ok none between ∧
        placeUnit survey.layout between = .ok geometry behind ∧ packets = [carrier] ∧
        tilePacket packet (survey.tileInfo packet.data unit geometry 0)
          (behind.config.tileIndex.getD 0) = .ok carrier) := by
  obtain ⟨survey, _, first, onward⟩ := Step.bind_eq_ok.1 run
  obtain ⟨success, rfl⟩ := lift_eq_ok.1 first
  obtain ⟨chosen, between, second, made⟩ := Step.bind_eq_ok.1 onward
  refine ⟨survey, success, ?_⟩
  cases chosen with
  | some layout =>
    refine .inl ⟨layout, ?_⟩
    have turn (tile : Nat) (carrier : Packet) (before after : TileSplitter)
        (run : (do
          let geometry ← placeIn layout tile
          tilePacket packet (survey.tileInfo packet.data unit geometry tile) tile : Split Packet)
            before = .ok carrier after) :
        after = before ∧ ∃ geometry, placeIn layout tile = .ok geometry ∧
          tilePacket packet (survey.tileInfo packet.data unit geometry tile) tile =
            .ok carrier := by
      obtain ⟨geometry, _, placed, wrapped⟩ := Step.bind_eq_ok.1 run
      obtain ⟨found, rfl⟩ := lift_eq_ok.1 placed
      obtain ⟨success, rfl⟩ := lift_eq_ok.1 wrapped
      exact ⟨rfl, geometry, found, success⟩
    obtain ⟨rfl, each⟩ := Step.mapM_sound turn made
    exact ⟨second, each⟩
  | none =>
    obtain ⟨geometry, last, third, wrapped⟩ := Step.bind_eq_ok.1 made
    rw [Step.get_bind] at wrapped
    obtain ⟨carrier, _, fourth, single⟩ := Step.bind_eq_ok.1 wrapped
    obtain ⟨success, rfl⟩ := lift_eq_ok.1 fourth
    cases single
    exact .inr ⟨between, geometry, carrier, second, third, rfl, success⟩

end Split

/-- The layout that a unit is split by is one of a frame. -/
theorem Split.splitLayout_framed (sound : Sound config splitter)
    (framed : ∀ own, survey.layout = some own → own.Framed) {layout : TileLayout}
    (run : splitLayout survey splitter = .ok (some layout) behind) : layout.Framed := by
  rcases splitLayout_some run with found | ⟨-, found⟩
  · exact framed layout found
  · exact sound.last layout found

/-- Each tile of a layout of a frame is placed where the layout has it. -/
theorem Split.placeIn_at {layout : TileLayout} (framed : layout.Framed) {tile : Nat}
    (inside : tile < layout.tileCount) {geometry : TileGeometry}
    (placed : placeIn layout tile = .ok geometry) : geometry.At layout.placement tile := by
  obtain ⟨own, success, sits⟩ :=
    placeIn_eq_ok (framed.inRange (by omega)) framed.expressible inside
  obtain rfl := Except.ok.inj (success.symm.trans placed)
  exact sits

namespace Arrived

variable {decoder : DecoderState}

/-- A packet that is made of a unit carries a tile of it. -/
theorem tilePacket_carries (arrived : Arrived config splitter packet unit decoder)
    (success : Survey.ofUnit unit = .ok survey) {geometry : TileGeometry}
    (words : ∀ value ∈ TileInfo.geometryWords geometry, TileInfo.Word value) {tile index : Nat}
    (made : Split.tilePacket packet (survey.tileInfo packet.data unit geometry tile) index =
      .ok carrier) :
    carrier.tileIndex = some index ∧ carrier.Carries packet unit tile ∧
      TileInfo.splitPacket carrier.data =
        .ok (survey.tileInfo packet.data unit geometry tile, packet.data) := by
  obtain ⟨indexed, alike, told, describes⟩ :=
    Split.tilePacket_sound (arrived.surveyed success) arrived.within arrived.type words made
  exact ⟨indexed, ⟨alike, _, told, describes⟩, told⟩

/-- The packets of a unit that is split by a layout carry the tiles of the layout, in order. -/
theorem several (arrived : Arrived config splitter packet unit decoder)
    (success : Survey.ofUnit unit = .ok survey) {layout : TileLayout} (framed : layout.Framed)
    {packets : List Packet}
    (made : Split.MadeOf packet unit survey layout packets) {index : Nat}
    (found : packets[index]? = some carrier) :
    carrier.tileIndex = some index ∧ carrier.Carries packet unit index ∧
      ∃ geometry, Split.placeIn layout index = .ok geometry ∧
        TileInfo.splitPacket carrier.data =
          .ok (survey.tileInfo packet.data unit geometry index, packet.data) := by
  obtain ⟨inside, rfl⟩ := List.getElem?_eq_some_iff.1 found
  have less : index < layout.tileCount := made.length_eq ▸ inside
  obtain ⟨geometry, placed, packed⟩ :=
    (List.forall₂_iff_get.1 made).2 index (by rwa [List.length_range]) inside
  simp only [List.get_eq_getElem, List.getElem_range] at placed packed
  obtain ⟨indexed, carries, told⟩ :=
    arrived.tilePacket_carries success (Split.placeIn_at framed less placed).words packed
  exact ⟨indexed, carries, geometry, placed, told⟩

/-- The layout that a unit is split by is that of its last frame, or the last one that a unit in
    front of it was split by, if it has no tile groups. -/
theorem chosen_layout (arrived : Arrived config splitter packet unit decoder)
    (success : Survey.ofUnit unit = .ok survey) {start : TileSplitter} {layout : TileLayout}
    (chosen : Split.splitLayout survey start = .ok (some layout) behind) :
    (lastFrame none unit).bind FrameHeader.layout = some layout ∨
      framedGroups none unit = [] ∧ start.lastLayout = some layout := by
  have surveyed := arrived.surveyed success
  rcases Split.splitLayout_some chosen with found | ⟨uncounted, kept⟩
  · exact .inl (surveyed.layout.symm.trans found)
  · refine .inr ⟨List.eq_nil_iff_forall_not_mem.2 fun held member => ?_, kept⟩
    obtain ⟨-, _, -, -, counted⟩ := surveyed.each held member
    rw [uncounted] at counted
    cases counted

/-- A survey that counts tiles has seen a tile group, of a frame of as many tiles. -/
theorem counted (arrived : Arrived config splitter packet unit decoder)
    (success : Survey.ofUnit unit = .ok survey) {count : Nat}
    (counted : survey.tileCount = some count) :
    ∃ held ∈ framedGroups none unit, ∃ layout, held.frame.layout = some layout ∧
      layout.tileCount = count := by
  have surveyed := arrived.surveyed success
  obtain ⟨⟨⟩⟩ | present := surveyed.counted count counted
  obtain ⟨held, member⟩ := List.exists_mem_of_ne_nil _ present
  obtain ⟨-, layout, cut, -, same⟩ := surveyed.each held member
  exact ⟨held, member, layout, cut, Option.some.inj (same.symm.trans counted)⟩

/-- If the frames with tile groups have several tiles, then so does the last frame. -/
theorem several_of_not_endsWhole (arrived : Arrived config splitter packet unit decoder)
    (success : Survey.ofUnit unit = .ok survey) (steady : ¬EndsWhole unit) {count : Nat}
    (counted : survey.tileCount = some count) (several : 1 < count) {layout : TileLayout}
    (found : survey.layout = some layout) : 1 < layout.tileCount := by
  refine Nat.lt_of_not_le fun few => steady ⟨?_, layout, ?_, few⟩
  · obtain ⟨held, member, own, cut, rfl⟩ := arrived.counted success counted
    exact ⟨held, member, own, cut, several⟩
  · exact (arrived.surveyed success).layout.symm.trans found

/-- The frames of a unit that is not split by a layout have no more than one tile. -/
theorem single (arrived : Arrived config splitter packet unit decoder)
    (success : Survey.ofUnit unit = .ok survey)
    (whole : ∀ count, survey.tileCount = some count → survey.layout.isSome = true → count ≤ 1) :
    ∀ held ∈ framedGroups none unit, ∃ layout, held.frame.layout = some layout ∧
      layout.tileCount ≤ 1 := by
  intro held member
  have surveyed := arrived.surveyed success
  obtain ⟨-, layout, cut, -, counted⟩ := surveyed.each held member
  have last := lastFrame_isSome_of_groups (List.ne_nil_of_mem member)
  obtain ⟨frame, present⟩ := Option.isSome_iff_exists.1 last
  obtain ⟨own, found, -⟩ := (surveyed.begun frame present).layout
  have known : survey.layout.isSome = true := by
    rw [surveyed.layout, present, Option.bind_some, found]
    rfl
  exact ⟨layout, cut, whole _ counted known⟩

end Arrived

theorem RanSteady.ran (steady : RanSteady config splitter) : Ran config splitter := by
  induction steady with
  | opened success => exact .opened success
  | filter _ packet _ ih => exact ih.filter packet
  | reset _ ih => exact ih.reset

/-- The layout that units without tile groups go by is one of several tiles. -/
theorem RanSteady.several (steady : RanSteady config splitter) :
    ∀ layout, splitter.lastLayout = some layout → 1 < layout.tileCount := by
  induction steady with
  | @opened splitter success =>
    rw [ofConfig] at success
    split at success
    next => cases success; rintro _ ⟨⟩
    next => cases success
  | filter before packet shown ih =>
    refine filter_keeps (fun splitter => ∀ layout, splitter.lastLayout = some layout →
      1 < layout.tileCount) ih packet fun unit decoder parsed => ⟨ih, ?_⟩
    intro survey success count layout counted several found _ _
    rintro _ ⟨⟩
    exact (before.ran.sound.arrived parsed).several_of_not_endsWhole success
      (shown unit decoder parsed) counted several found
  | reset => rintro _ ⟨⟩

/-- What comes of a unit that could be parsed is the unit as it was, or one packet for each tile of
    its last frame, or of the last frame in front of it, in order, or, of a unit without frames of
    several tiles, one packet with the configured index. All that the packets say of the unit is
    true. There are several packets for the tiles of a frame, unless this unit or one in front of it
    ends whole. A unit that cannot be parsed, which is no fault, comes back, and the splitter is left
    as it was. -/
theorem Ran.filter_describes (ran : Ran config splitter) (packet : Packet) :
    (∀ cause state, Decode.parseUnit packet.data splitter.decoder = .error cause state →
      ¬ cause.IsFault ∧ splitter.filter packet = ([packet], splitter)) ∧
    ∀ unit decoder, Decode.parseUnit packet.data splitter.decoder = .ok unit decoder →
      (Obu.readAll packet.data).1 = (unit.map ParsedObu.obu).map .ok ∧
      ((splitter.filter packet).1 = [packet] ∨
        (∃ layout, ((lastFrame none unit).bind FrameHeader.layout = some layout ∨
            framedGroups none unit = [] ∧ splitter.lastLayout = some layout) ∧
          (splitter.filter packet).1.length = layout.tileCount ∧
          (RanSteady config splitter → ¬EndsWhole unit → 1 < layout.tileCount) ∧
          ∀ (index : Nat) (carrier : Packet), (splitter.filter packet).1[index]? = some carrier →
            carrier.tileIndex = some index ∧ carrier.Carries packet unit index) ∨
        ∃ carrier, (splitter.filter packet).1 = [carrier] ∧
          carrier.tileIndex = some (config.tileIndex.getD 0) ∧ carrier.Carries packet unit 0 ∧
          ∀ held ∈ framedGroups none unit, ∃ layout, held.frame.layout = some layout ∧
            layout.tileCount ≤ 1) := by
  obtain ⟨_, _, failed, same⟩ | ⟨unit, decoder, parsed, outcome⟩ := splitter.filter_cases packet
  · refine ⟨fun cause state failed => ⟨?_, same⟩, fun unit decoder parsed => ?_⟩
    · exact ((Decode.parseUnit_safe packet.data).of_error ran.sound.decoder failed).1
    · rw [failed] at parsed
      cases parsed
  · refine ⟨fun cause state failed => ?_, fun other behind again => ?_⟩
    · rw [parsed] at failed
      cases failed
    rw [parsed] at again
    cases again
    have arrived := ran.sound.arrived parsed
    refine ⟨arrived.read, ?_⟩
    obtain ⟨packets, behind, split, same⟩ | ⟨cause, behind, split, same⟩ := outcome
    · rw [same]
      obtain ⟨survey, success, ⟨layout, chosen, made⟩ |
        ⟨between, geometry, carrier, chosen, placed, rfl, made⟩⟩ := Split.tilePackets_sound split
      · have framed := Split.splitLayout_framed arrived.sound
          (fun _ => arrived.framed success) chosen
        have shown := arrived.chosen_layout success chosen
        refine .inr (.inl ⟨layout, shown, made.length_eq, ?_, ?_⟩)
        · intro before steady
          obtain ⟨_, ⟨⟩, found, count, counted, several⟩ | ⟨-, last, -⟩ | ⟨⟨⟩, -⟩ :=
            Split.splitLayout_cases chosen
          · exact arrived.several_of_not_endsWhole success steady counted several found
          · exact before.several layout last.symm
        · intro index carrier found
          obtain ⟨indexed, carries, -⟩ := arrived.several success framed made found
          exact ⟨indexed, carries⟩
      · obtain ⟨rfl, whole⟩ := Split.splitLayout_none chosen
        obtain ⟨rfl, words⟩ :=
          Split.placeUnit_sound arrived.sound (fun _ => arrived.framed success) placed
        obtain ⟨indexed, carries, -⟩ := arrived.tilePacket_carries success words made
        rw [show splitter.config = config from arrived.sound.own] at indexed
        exact .inr (.inr ⟨carrier, rfl, indexed, carries, arrived.single success whole⟩)
    · rw [same]
      exact .inl rfl

/-- A frame of two tiles, each in a tile group of its own. -/
theorem Ran.filter_describes_two_groups :
    ∃ splitter packet, Ran .default splitter ∧ RanSteady .default splitter ∧
      (splitter.filter packet).1.length = 2 ∧
      ∃ unit decoder, Decode.parseUnit packet.data splitter.decoder = .ok unit decoder ∧
        ¬EndsWhole unit ∧ ∃ layout : TileLayout,
          (splitter.filter packet).1.length = layout.tileCount ∧ 1 < layout.tileCount ∧
          ∀ (index : Nat) (carrier : Packet), (splitter.filter packet).1[index]? = some carrier →
            carrier.tileIndex = some index ∧ carrier.Carries packet unit index := by
  have steady : RanSteady .default ⟨.default, .empty, none⟩ := .opened rfl
  refine ⟨_, ⟨[0x12, 0x00, 0x0A, 0x06, 0x18, 0x19, 0xBF, 0xFF, 0x00, 0x02, 0x1A, 0x02, 0x18, 0x40,
    0x22, 0x03, 0x80, 0xAA, 0xAB, 0x22, 0x02, 0xE0, 0xBB], some 0, none, 1, 0, none⟩, steady.ran,
    steady, ?_⟩
  generalize given : Packet.mk _ _ _ _ _ _ = packet
  have two : (TileSplitter.filter ⟨.default, .empty, none⟩ packet).1.length = 2 := by
    rw [← given]
    decide +kernel
  have checked : Step.Succeeds (fun unit _ => ¬EndsWhole unit)
      (Decode.parseUnit packet.data .empty) := by
    rw [← given]
    decide +kernel
  obtain ⟨unit, decoder, parsed, shown⟩ := checked.eq_ok
  refine ⟨two, unit, decoder, parsed, shown, ?_⟩
  obtain ⟨-, same | ⟨layout, -, counted, several, each⟩ | ⟨carrier, same, -⟩⟩ :=
    (steady.ran.filter_describes packet).2 unit decoder parsed
  · rw [same] at two
    cases two
  · exact ⟨layout, counted, several steady shown, each⟩
  · rw [same] at two
    cases two

/-- Behind the tile group of a frame of two tiles stands the header of a frame of one. It takes the
    place of both: what comes is one packet, which is neither the unit nor the configured tile. -/
theorem not_filter_describes :
    ∃ config splitter packet unit decoder carrier, Ran config splitter ∧
      Decode.parseUnit packet.data splitter.decoder = .ok unit decoder ∧ EndsWhole unit ∧
      (splitter.filter packet).1 = [carrier] ∧ carrier ≠ packet ∧
      config.tileIndex = some 1 ∧ carrier.tileIndex = some 0 := by
  have ran : Ran ⟨some 1, some ⟨128, 64, 2, 1, 64, 0, 64, 64⟩⟩
    ⟨⟨some 1, some ⟨128, 64, 2, 1, 64, 0, 64, 64⟩⟩, .empty, none⟩ := .opened rfl
  generalize given : (⟨[0x12, 0x00, 0x0A, 0x0A, 0x00, 0x00, 0x00, 0x03, 0xBB, 0xF9, 0xF8, 0x00,
    0x00, 0x10, 0x1A, 0x03, 0x0A, 0x00, 0x62, 0x22, 0x04, 0x00, 0x00, 0xAA, 0xBB, 0x1A, 0x03, 0x0A,
    0x00, 0x50], none, none, 0, 0, none⟩ : Packet) = packet
  have checked : Step.Succeeds (fun unit _ => EndsWhole unit)
      (Decode.parseUnit packet.data .empty) := by
    rw [← given]
    decide +kernel
  have single : ((filter ⟨⟨some 1, some ⟨128, 64, 2, 1, 64, 0, 64, 64⟩⟩, .empty, none⟩ packet).1.map
      (·.tileIndex)) = [some 0] ∧ packet.tileIndex = none := by
    rw [← given]
    decide +kernel
  obtain ⟨unit, decoder, parsed, whole⟩ := checked.eq_ok
  obtain ⟨carrier, same, index⟩ := List.map_eq_singleton_iff.1 single.1
  refine ⟨_, _, packet, unit, decoder, carrier, ran, parsed, whole, same, ?_, rfl, index⟩
  rintro rfl
  rw [single.2] at index
  cases index

end TileSplitter

end Av1Tiling
