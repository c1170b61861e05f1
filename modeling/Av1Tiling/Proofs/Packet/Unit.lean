import Av1Tiling.Packet.TileInfo
import Av1Tiling.Proofs.Code.TrailingBit
import Av1Tiling.Proofs.Decoder.Outcome
import Av1Tiling.Proofs.Frame.Grid
import Av1Tiling.Proofs.Tile.Group
import Av1Tiling.Proofs.Tile.Pixels
import Mathlib.Tactic.MkIffOfInductiveProp

/-!
# Units of whole frames

A unit is taken as a row of parts: OBUs that stand for themselves, and frame headers with all tile
groups of their frames. Of such a unit it is plain what it is with each frame's tile groups put into
one (`UnitPart.merged`). What its parts hold follows from the unit having been parsed.
-/

namespace Av1Tiling

/-- The bytes of an OBU as they are written. -/
def Obu.bytes (obu : Obu) : Bytes :=
  Obu.coded obu.header obu.payload

/-- A tile group and the OBU that holds it. -/
structure GroupObu where
  obu : Obu
  group : TileGroup
  deriving Repr, DecidableEq

namespace GroupObu

def parsed (held : GroupObu) : ParsedObu :=
  ⟨held.obu, .tileGroup held.group⟩

/-- The indices of the tiles. -/
def indices (held : GroupObu) : List Nat :=
  held.group.tiles.map TileSpan.tile

/-- The bytes of the tiles. -/
def tiles (held : GroupObu) : List Bytes :=
  held.group.tileBytes held.obu.payload

end GroupObu

/-- The header of a frame and the groups of its tiles. -/
structure WholeFrame where
  header : Obu
  frame : FrameHeader
  layout : TileLayout
  groups : List GroupObu
  deriving Repr, DecidableEq

namespace WholeFrame

def parsed (whole : WholeFrame) : List ParsedObu :=
  ⟨whole.header, .frameHeader whole.frame⟩ :: whole.groups.map GroupObu.parsed

/-- The bytes of all tiles. -/
def tiles (whole : WholeFrame) : List Bytes :=
  whole.groups.flatMap GroupObu.tiles

/-- All tiles in one group without a range, behind the OBU header of the last group. -/
def mergedGroup (whole : WholeFrame) : Bytes :=
  match whole.groups.getLast? with
  | some last => Obu.coded last.obu.header (TileGroup.coded whole.layout whole.tiles)
  | none => []

/-- The frame has one tile group, which does not say which tiles it holds. -/
def Single (whole : WholeFrame) : Prop :=
  ∃ held, whole.groups = [held] ∧ held.group.rangePresent = false

end WholeFrame

/-- A part of a unit: an OBU that stands for itself, or a frame with its tiles. -/
inductive UnitPart
  | alone (parsed : ParsedObu)
  | frame (whole : WholeFrame)
  deriving Repr, DecidableEq

namespace UnitPart

def parsed : UnitPart → List ParsedObu
  | alone parsed => [parsed]
  | frame whole => whole.parsed

/-- The bytes of the part with all tiles of a frame in one tile group. -/
def merged : UnitPart → Bytes
  | alone parsed => parsed.obu.bytes
  | frame whole => whole.header.bytes ++ whole.mergedGroup

def whole? : UnitPart → Option WholeFrame
  | alone _ => none
  | frame whole => some whole

/-- The part is a sequence header. -/
def isSequence : UnitPart → Bool
  | alone ⟨_, .sequenceHeader _⟩ => true
  | _ => false

end UnitPart

/-- The OBUs of a unit. -/
def unitObus (parts : List UnitPart) : List ParsedObu :=
  parts.flatMap UnitPart.parsed

/-- The frames of a unit. -/
def unitFrames (parts : List UnitPart) : List WholeFrame :=
  parts.filterMap UnitPart.whole?

/-- The tile groups of a unit. -/
def unitGroups (parts : List UnitPart) : List GroupObu :=
  (unitFrames parts).flatMap WholeFrame.groups

/-- A unit with the tile groups of each frame put into one. -/
def mergedUnit (parts : List UnitPart) : Bytes :=
  parts.flatMap UnitPart.merged

/-! ## Parts that can be put together -/

/-- The last byte of the payload closes it, behind at least `count` bits of content. -/
def Closed (payload : Bytes) (count : Nat) : Prop :=
  ∃ stop, TrailingBit.position payload = .ok stop ∧ count ≤ stop ∧ 8 * payload.length ≤ stop + 8

/-- An OBU that stands for itself: an empty temporal delimiter, or the header of a sequence or of a
    shown existing frame, closed behind what it is read for. -/
inductive Plain : ParsedObu → Prop
  | temporalDelimiter {obu : Obu} (empty : obu.payload = []) : Plain ⟨obu, .temporalDelimiter⟩
  | sequenceHeader {obu : Obu} {sequence : SequenceHeader}
      (closed : Closed obu.payload sequence.dimensions.span.stop) :
      Plain ⟨obu, .sequenceHeader sequence⟩
  | existingFrame {obu : Obu} {frame : FrameHeader} (shown : frame.showExisting = true)
      (closed : Closed obu.payload 0) : Plain ⟨obu, .frameHeader frame⟩

/-- A frame of `count` tiles whose groups hold each of them once and in order. -/
@[mk_iff]
structure WholeFrame.Complete (count : Nat) (whole : WholeFrame) : Prop where
  own : whole.frame.showExisting = false
  cut : whole.frame.layout = some whole.layout
  tileCount : whole.layout.tileCount = count
  indices : whole.groups.flatMap GroupObu.indices = List.range count
  closed : ∀ span ∈ whole.frame.layoutSpan, Closed whole.header.payload span.stop

def UnitPart.Complete (count : Nat) : UnitPart → Prop
  | alone parsed => Plain parsed
  | frame whole => whole.Complete count

/-- No sequence header stands behind a frame. -/
def SequenceFirst (parts : List UnitPart) : Prop :=
  parts.Pairwise fun earlier later => earlier.whole?.isSome = true → later.isSequence = false

/-- A unit of whole frames with `count` tiles each that is read over `state`, few enough and small
    enough for tile infos, and with its tile groups put together for `capacity` bytes of output. -/
@[mk_iff]
structure Canonical (count capacity : Nat) (state : DecoderState) (unit : Bytes)
    (parts : List UnitPart) (behind : DecoderState) : Prop where
  parsed : Decode.parseUnit unit state = .ok (unitObus parts) behind
  complete : ∀ part ∈ parts, part.Complete count
  sequenceFirst : SequenceFirst parts
  obus : (unitObus parts).length ≤ TileInfo.maxObus
  groups : (unitGroups parts).length ≤ TileInfo.maxGroups
  small : unit.length < 2 ^ 32
  mergedSmall : (mergedUnit parts).length < 2 ^ 32
  room : (mergedUnit parts).length + Emit.reservation ≤ capacity

/-- A unit without frames can be placed: it is the one tile of its sequence, or goes by the last
    unit with several tiles, whose size its sequence headers have then, if there are any. -/
def Placeable (count : Nat) (last : Option TileLayout) (sequence : Option SequenceHeader)
    (parts : List UnitPart) : Prop :=
  match last with
  | none => count = 1 ∧ sequence.isSome = true
  | some layout =>
    (∀ part ∈ parts, part.isSequence = false) ∨
      ∀ own, sequence = some own → own.dimensions.maxWidth = layout.grid.frameWidth ∧
        own.dimensions.maxHeight = layout.grid.frameHeight

/-- The layout of the last unit with several tiles, behind a unit whose frames have `count` each. -/
def nextLayout (count : Nat) (last : Option TileLayout) (parts : List UnitPart) :
    Option TileLayout :=
  if 1 < count then (unitFrames parts).getLast?.map WholeFrame.layout <|> last else last

/-- A canonical unit that can be put together. One group can say the sizes of all tiles of a frame,
    and all frames are cut alike. `last` is the layout of the last unit with several tiles. -/
@[mk_iff]
structure Mergeable (count capacity : Nat) (last : Option TileLayout) (state : DecoderState)
    (unit : Bytes) (parts : List UnitPart) (behind : DecoderState) : Prop
    extends Canonical count capacity state unit parts behind where
  sized : ∀ whole ∈ unitFrames parts, TileGroup.Sized whole.layout.tileSizeBytes whole.tiles
  alike : ∀ one ∈ unitFrames parts, ∀ other ∈ unitFrames parts,
    one.layout.placement = other.layout.placement
  placeable : unitFrames parts = [] → Placeable count last behind.sequence parts

/-! ## What parts hold -/

/-- A frame that was read for a sequence, with groups that were read for its layout. -/
structure WholeFrame.Known (sequence : SequenceHeader) (whole : WholeFrame) : Prop where
  type : whole.header.header.type = .frameHeader ∨
    whole.header.header.type = .redundantFrameHeader
  parsed : ∃ slots kept, FrameHeader.parse sequence whole.header.header whole.header.payload slots =
    .ok whole.frame kept
  inRange : whole.frame.InRange
  groupType : ∀ held ∈ whole.groups, held.obu.header.type = .tileGroup
  groups : ∀ held ∈ whole.groups, TileGroup.parse held.obu.payload whole.layout = .ok held.group

def UnitPart.Known (sequence : Option SequenceHeader) : UnitPart → Prop
  | alone parsed => ∃ state behind, Decode.Outcome state parsed.obu parsed.content behind
  | frame whole => ∃ own, sequence = some own ∧ whole.Known own

namespace Decode

variable {state behind : DecoderState}

theorem Interprets.split {items more : List ParsedObu}
    (run : Interprets state (items ++ more) behind) :
    ∃ between, Interprets state items between ∧ Interprets between more behind := by
  induction items generalizing state with
  | nil => exact ⟨state, .nil state, run⟩
  | cons item rest ih =>
    cases run with
    | cons first later =>
      obtain ⟨between, front, back⟩ := ih later
      exact ⟨between, .cons first front, back⟩

theorem Interprets.inRange {items : List ParsedObu} (run : Interprets state items behind)
    (start : state.InRange) : behind.InRange := by
  induction run with
  | nil => exact start
  | cons first later ih => exact ih ((interpret_safe _).of_ok start first).2

/-- Only a sequence header changes the sequence. -/
theorem Outcome.sequence_eq {obu : Obu} {content : ObuContent}
    (outcome : Outcome state obu content behind)
    (other : ∀ sequence, content ≠ .sequenceHeader sequence) :
    behind.sequence = state.sequence := by
  cases outcome with
  | sequenceHeader type parsed => exact absurd rfl (other _)
  | _ => rfl

theorem Interprets.sequence_eq {items : List ParsedObu} (run : Interprets state items behind)
    (other : ∀ item ∈ items, ∀ sequence, item.content ≠ .sequenceHeader sequence) :
    behind.sequence = state.sequence := by
  induction run with
  | nil => rfl
  | cons first later ih =>
    obtain ⟨here, others⟩ := List.forall_mem_cons.1 other
    rw [ih others, (interpret_outcome first).sequence_eq here]

/-- While nothing but the tiles of one frame is waited for, groups are read for its layout. -/
theorem Interprets.groups {frame : FrameHeader} {layout : TileLayout}
    (cut : frame.layout = some layout) {groups : List GroupObu}
    (waiting : ∀ pending, state.pending = some pending → pending = frame)
    (run : Interprets state (groups.map GroupObu.parsed) behind) :
    ∀ held ∈ groups, held.obu.header.type = .tileGroup ∧
      TileGroup.parse held.obu.payload layout = .ok held.group := by
  induction groups generalizing state with
  | nil => rintro _ ⟨⟩
  | cons held rest ih =>
    cases run with
    | cons first later =>
      have outcome : Outcome state held.obu (.tileGroup held.group) _ := interpret_outcome first
      cases outcome with
      | tileGroup type present own parsed more =>
        obtain rfl := waiting _ present
        obtain rfl := Option.some.inj (own.symm.trans cut)
        exact List.forall_mem_cons.2 ⟨⟨type, parsed⟩, ih waiting later⟩
      | lastTileGroup type present own parsed last =>
        obtain rfl := waiting _ present
        obtain rfl := Option.some.inj (own.symm.trans cut)
        exact List.forall_mem_cons.2 ⟨⟨type, parsed⟩, ih (by rintro _ ⟨⟩) later⟩

end Decode

theorem UnitPart.content_ne_of_not_isSequence {part : UnitPart} (other : part.isSequence = false) :
    ∀ item ∈ part.parsed, ∀ sequence, item.content ≠ .sequenceHeader sequence := by
  intro item member sequence same
  cases part with
  | alone parsed =>
    obtain rfl := List.mem_singleton.1 member
    obtain ⟨obu, content⟩ := item
    cases same
    cases other
  | frame whole =>
    rcases List.mem_cons.1 member with rfl | member
    · cases same
    · obtain ⟨held, -, rfl⟩ := List.mem_map.1 member
      cases same

/-- A complete frame that was interpreted was read for the sequence of its time. -/
theorem WholeFrame.known_of_interprets {state behind : DecoderState} {whole : WholeFrame}
    {count : Nat} (inRange : state.InRange) (complete : whole.Complete count)
    (run : Decode.Interprets state whole.parsed behind) :
    ∃ own, state.sequence = some own ∧ whole.Known own := by
  cases run with
  | cons first later =>
    have between := ((Decode.interpret_safe whole.header).of_ok inRange first).2
    have outcome : Decode.Outcome state whole.header (.frameHeader whole.frame) _ :=
      Decode.interpret_outcome first
    cases outcome with
    | existingFrame type idle present parsed shown =>
      rw [complete.own] at shown
      cases shown
    | frameHeader type idle present parsed own =>
      have groups := later.groups complete.cut (by rintro _ ⟨⟩; rfl)
      exact ⟨_, present, type, ⟨_, _, parsed⟩, (between.pending _ rfl).1,
        fun held member => (groups held member).1, fun held member => (groups held member).2⟩

/-- All parts of a unit were read for the sequence that it leaves behind. -/
theorem known_of_interprets {parts : List UnitPart} {count : Nat} {state behind : DecoderState}
    (inRange : state.InRange) (complete : ∀ part ∈ parts, part.Complete count)
    (first : SequenceFirst parts) (run : Decode.Interprets state (unitObus parts) behind) :
    ∀ part ∈ parts, part.Known behind.sequence := by
  induction parts generalizing state with
  | nil => rintro _ ⟨⟩
  | cons part rest ih =>
    obtain ⟨between, head, later⟩ := Decode.Interprets.split run
    obtain ⟨here, others⟩ := List.forall_mem_cons.1 complete
    obtain ⟨behindPart, behindRest⟩ := List.pairwise_cons.1 first
    refine List.forall_mem_cons.2 ⟨?_, ih (head.inRange inRange) others behindRest later⟩
    cases part with
    | alone parsed =>
      cases head with
      | cons alone none => exact ⟨state, _, Decode.interpret_outcome alone⟩
    | frame whole =>
      obtain ⟨own, present, known⟩ := whole.known_of_interprets inRange here head
      have kept : between.sequence = state.sequence :=
        head.sequence_eq (@UnitPart.content_ne_of_not_isSequence (.frame whole) rfl)
      have still : behind.sequence = between.sequence := by
        refine later.sequence_eq fun item member => ?_
        obtain ⟨part, present, inside⟩ := List.mem_flatMap.1 member
        exact part.content_ne_of_not_isSequence (behindPart part present rfl) item inside
      exact ⟨own, still.trans (kept.trans present), known⟩

/-- The type of the OBU has a meaning, and is that of tile groups exactly where it holds one. -/
structure ParsedObu.Typed (item : ParsedObu) : Prop where
  code : ObuType.ofCode item.obu.header.type.code = item.obu.header.type
  list : item.obu.header.type ≠ .tileList
  group : item.obu.header.type = .tileGroup ↔ ∃ group, item.content = .tileGroup group

namespace ParsedObu.Typed

variable {item : ParsedObu}

theorem of_other {type : ObuType} (same : item.obu.header.type = type)
    (code : ObuType.ofCode type.code = type) (list : type ≠ .tileList) (other : type ≠ .tileGroup)
    (content : ∀ group, item.content ≠ .tileGroup group) : item.Typed := by
  subst same
  refine ⟨code, list, fun same => absurd same other, ?_⟩
  rintro ⟨group, same⟩
  exact absurd same (content group)

theorem of_header (type : item.obu.header.type = .frameHeader ∨
    item.obu.header.type = .redundantFrameHeader)
    (content : ∀ group, item.content ≠ .tileGroup group) : item.Typed := by
  rcases type with type | type
  · exact of_other type rfl (by decide) (by decide) content
  · exact of_other type rfl (by decide) (by decide) content

theorem of_group (type : item.obu.header.type = .tileGroup) {group : TileGroup}
    (content : item.content = .tileGroup group) : item.Typed := by
  refine ⟨?_, ?_, iff_of_true type ⟨group, content⟩⟩
  · rw [type]
    rfl
  · rw [type]
    decide

end ParsedObu.Typed

theorem Decode.Outcome.typed {state behind : DecoderState} {obu : Obu} {content : ObuContent}
    (outcome : Outcome state obu content behind) (known : content ≠ .other) :
    ParsedObu.Typed ⟨obu, content⟩ := by
  cases outcome with
  | temporalDelimiter type => exact .of_other type rfl (by decide) (by decide) (by simp)
  | sequenceHeader type => exact .of_other type rfl (by decide) (by decide) (by simp)
  | frameHeaderCopy type => exact .of_header type (by simp)
  | existingFrame type => exact .of_header type (by simp)
  | frameHeader type => exact .of_header type (by simp)
  | frame type => exact .of_other type rfl (by decide) (by decide) (by simp)
  | tileGroup type => exact .of_group type rfl
  | lastTileGroup type => exact .of_group type rfl
  | other => exact absurd rfl known

/-- The type of an OBU says whether it holds tiles. -/
theorem Decode.Outcome.type_eq_iff {state behind : DecoderState} {obu : Obu} {content : ObuContent}
    (outcome : Outcome state obu content behind) :
    obu.header.type = .tileGroup ↔ ∃ group, content = .tileGroup group := by
  by_cases known : content = .other
  · subst known
    cases outcome with
    | other type =>
      rcases type with type | type | type | ⟨code, type⟩ <;> simp [type]
  · exact (outcome.typed known).group

theorem UnitPart.Known.uncut {sequence : Option SequenceHeader} {obu : Obu} {frame : FrameHeader}
    (known : (UnitPart.alone ⟨obu, .frameHeader frame⟩).Known sequence)
    (shown : frame.showExisting = true) : frame.layout = none := by
  obtain ⟨state, behind, outcome⟩ := known
  cases outcome with
  | existingFrame type idle present parsed => exact (FrameHeader.parse_cut parsed).uncut shown
  | frameHeader type idle present parsed => exact (FrameHeader.parse_cut parsed).uncut shown

/-- Every OBU of parts that were read has the type of what it holds. -/
theorem UnitPart.Known.typed {sequence : Option SequenceHeader} {part : UnitPart} {count : Nat}
    (known : part.Known sequence) (complete : part.Complete count) :
    ∀ item ∈ part.parsed, item.Typed := by
  intro item member
  cases part with
  | alone parsed =>
    obtain rfl := List.mem_singleton.1 member
    obtain ⟨state, behind, outcome⟩ := known
    have content : item.content ≠ .other := by
      have plain : Plain item := complete
      cases plain <;> simp only [ne_eq, reduceCtorEq, not_false_eq_true]
    exact outcome.typed content
  | frame whole =>
    obtain ⟨own, -, known⟩ := known
    rcases List.mem_cons.1 member with rfl | member
    · exact .of_header known.type (by simp)
    · obtain ⟨held, present, rfl⟩ := List.mem_map.1 member
      exact .of_group (known.groupType held present) rfl

/-! ## The tiles of a frame -/

namespace GroupObu

/-- Bytes of one tile in the group, none if it is in another one. -/
def tile (held : GroupObu) (tile : Nat) : Bytes :=
  match held.group.tiles.find? (·.tile == tile) with
  | some span => span.of held.obu.payload
  | none => []

variable {groups : List GroupObu}

theorem tile_of_not_mem {held : GroupObu} {index : Nat} (absent : index ∉ held.indices) :
    held.tile index = [] := by
  have none : held.group.tiles.find? (·.tile == index) = none := by
    rw [List.find?_eq_none]
    intro span member same
    exact absent (List.mem_map.2 ⟨span, member, beq_iff_eq.1 same⟩)
  rw [tile, none]

/-- In a group that has each tile once, a tile is found by its index. -/
theorem find?_eq_some {held : GroupObu} (nodup : held.indices.Nodup) {own : TileSpan}
    (member : own ∈ held.group.tiles) :
    held.group.tiles.find? (·.tile == own.tile) = some own := by
  revert nodup member
  rw [indices]
  generalize held.group.tiles = spans
  intro nodup member
  induction spans with
  | nil => cases member
  | cons first rest ih =>
    obtain ⟨alone, others⟩ := List.nodup_cons.1 nodup
    rcases List.mem_cons.1 member with rfl | member
    · exact List.find?_cons_of_pos (beq_self_eq_true _)
    · have other : (first.tile == own.tile) = false := by
        rw [beq_eq_false_iff_ne]
        intro same
        exact alone (same ▸ List.mem_map_of_mem member)
      simp only [List.find?_cons, other]
      exact ih others member

theorem map_tile {held : GroupObu} (nodup : held.indices.Nodup) :
    held.indices.map held.tile = held.tiles := by
  rw [indices, List.map_map, tiles, TileGroup.tileBytes]
  refine List.map_congr_left fun span member => ?_
  simp only [Function.comp_apply, tile, find?_eq_some nodup member]

/-- The bytes of each tile are those of the one group that it is in. -/
theorem map_tiles (nodup : (groups.flatMap indices).Nodup) :
    (groups.flatMap indices).map (fun index => groups.flatMap (·.tile index)) =
      groups.flatMap tiles := by
  induction groups with
  | nil => rfl
  | cons held rest ih =>
    rw [List.flatMap_cons, List.nodup_append] at nodup
    obtain ⟨own, others, apart⟩ := nodup
    have front : held.indices.map (fun index => (held :: rest).flatMap (·.tile index)) =
        held.indices.map held.tile := by
      refine List.map_congr_left fun index member => ?_
      have none : rest.flatMap (·.tile index) = [] := by
        refine List.flatMap_eq_nil_iff.2 fun other present => tile_of_not_mem fun inside => ?_
        exact apart index member index (List.mem_flatMap.2 ⟨other, present, inside⟩) rfl
      rw [List.flatMap_cons, none, List.append_nil]
    have back : (rest.flatMap indices).map (fun index => (held :: rest).flatMap (·.tile index)) =
        (rest.flatMap indices).map fun index => rest.flatMap (·.tile index) := by
      refine List.map_congr_left fun index member => ?_
      have none : held.tile index = [] :=
        tile_of_not_mem fun inside => apart index inside index member rfl
      rw [List.flatMap_cons, none, List.nil_append]
    rw [List.flatMap_cons, List.flatMap_cons, List.map_append, front, back, map_tile own, ih others]

end GroupObu

namespace WholeFrame

variable {sequence : SequenceHeader} {whole : WholeFrame} {count : Nat}

theorem Known.group (known : whole.Known sequence) {held : GroupObu}
    (member : held ∈ whole.groups) :
    TileGroup.Parsed held.obu.payload whole.layout held.group :=
  TileGroup.parse_sound (known.groups held member)

theorem Known.indices_eq (known : whole.Known sequence) {held : GroupObu}
    (member : held ∈ whole.groups) :
    held.indices = List.range' held.group.first (held.group.last - held.group.first + 1) :=
  (known.group member).located.indices

/-- Of the groups that hold the tiles in order, exactly the last one ends the frame. -/
theorem Complete.endsFrame_iff (complete : whole.Complete count) (known : whole.Known sequence)
    {front back : List GroupObu} {held : GroupObu} (split : whole.groups = front ++ held :: back) :
    held.group.endsFrame whole.layout = true ↔ back = [] := by
  have present : held ∈ whole.groups := by
    rw [split]
    exact List.mem_append_right _ List.mem_cons_self
  have range := (known.group present).range
  have all := complete.indices
  rw [split, List.flatMap_append, List.flatMap_cons, known.indices_eq present] at all
  have total := congrArg List.length all
  rw [List.length_append, List.length_append, List.length_range', List.length_range] at total
  have first : held.group.first = (front.flatMap GroupObu.indices).length := by
    have here := congrArg (·[(front.flatMap GroupObu.indices).length]?) all
    simp only [List.getElem?_append_right (Nat.le_refl _), Nat.sub_self, List.range'_succ,
      List.cons_append, List.getElem?_cons_zero] at here
    rw [List.getElem?_range (by omega)] at here
    exact Option.some.inj here
  have empty : (back.flatMap GroupObu.indices).length = 0 ↔ back = [] := by
    cases back with
    | nil => exact ⟨fun _ => rfl, fun _ => rfl⟩
    | cons other rest =>
      have there : other ∈ whole.groups := by
        rw [split]
        exact List.mem_append_right _ (.tail _ List.mem_cons_self)
      rw [List.flatMap_cons, List.length_append, known.indices_eq there, List.length_range']
      constructor
      · omega
      · rintro ⟨⟩
  rw [TileGroup.endsFrame, complete.tileCount, beq_iff_eq, ← empty]
  omega

/-- All tiles, one by one. -/
theorem Complete.tiles_eq (complete : whole.Complete count) :
    (List.range count).map (fun index => whole.groups.flatMap (·.tile index)) = whole.tiles := by
  have nodup : (whole.groups.flatMap GroupObu.indices).Nodup := by
    rw [complete.indices]
    exact List.nodup_range
  rw [← complete.indices]
  exact GroupObu.map_tiles nodup

theorem Complete.length_tiles (complete : whole.Complete count) : whole.tiles.length = count := by
  rw [← complete.tiles_eq, List.length_map, List.length_range]

theorem Complete.groups_ne_nil (complete : whole.Complete count) (some : 1 ≤ count) :
    whole.groups ≠ [] := by
  intro none
  have length := congrArg List.length complete.indices
  rw [none, List.length_range] at length
  exact absurd length (by simp only [List.flatMap_nil, List.length_nil]; omega)

/-- A complete frame has a last group, and only that one ends it. -/
theorem Complete.exists_last (complete : whole.Complete count) (known : whole.Known sequence)
    (some : 1 ≤ count) :
    ∃ groups final, whole.groups = groups ++ [final] ∧
      (∀ held ∈ groups, held.group.endsFrame whole.layout = false) ∧
      final.group.endsFrame whole.layout = true := by
  have split := List.dropLast_concat_getLast (complete.groups_ne_nil some)
  refine ⟨_, _, split.symm, fun held member => ?_, (complete.endsFrame_iff known split.symm).2 rfl⟩
  obtain ⟨before, after, front⟩ := List.append_of_mem member
  rw [front, List.append_assoc, List.cons_append] at split
  rw [← Bool.not_eq_true, complete.endsFrame_iff known split.symm]
  exact List.append_ne_nil_of_right_ne_nil _ (List.cons_ne_nil _ _)

theorem Known.merged_of_single (known : whole.Known sequence) (single : whole.Single) :
    whole.mergedGroup = whole.groups.flatMap (·.obu.bytes) := by
  obtain ⟨held, alone, silent⟩ := single
  have member : held ∈ whole.groups := by
    rw [alone]
    exact List.mem_cons_self
  have payload := (known.group member).coded silent
  have tiles : whole.tiles = held.group.tileBytes held.obu.payload := by
    rw [WholeFrame.tiles, alone]
    exact List.append_nil _
  rw [mergedGroup, tiles, payload, alone]
  exact (List.append_nil _).symm

end WholeFrame

/-- Where each frame has a single group already, the merged unit is the unit. -/
theorem mergedUnit_of_single {parts : List UnitPart} {sequence : Option SequenceHeader}
    (known : ∀ part ∈ parts, part.Known sequence)
    (single : ∀ whole ∈ unitFrames parts, whole.Single) :
    mergedUnit parts = (unitObus parts).flatMap (·.obu.bytes) := by
  induction parts with
  | nil => rfl
  | cons part rest ih =>
    obtain ⟨here, others⟩ := List.forall_mem_cons.1 known
    rw [unitObus, List.flatMap_cons, List.flatMap_append, mergedUnit, List.flatMap_cons]
    cases part with
    | alone parsed =>
      have later := ih others single
      rw [mergedUnit, unitObus] at later
      rw [later]
      exact congrArg (· ++ _) (List.append_nil _).symm
    | frame whole =>
      obtain ⟨own, -, known⟩ := here
      obtain ⟨first, behind⟩ := List.forall_mem_cons.1 single
      have later := ih others behind
      rw [mergedUnit, unitObus] at later
      rw [later, UnitPart.merged, known.merged_of_single first, UnitPart.parsed, WholeFrame.parsed,
        List.flatMap_cons, List.flatMap_map]
      rfl

/-! ## What is known of units that can be put together -/

theorem mem_unitFrames {parts : List UnitPart} {whole : WholeFrame} :
    whole ∈ unitFrames parts ↔ .frame whole ∈ parts := by
  constructor
  · intro member
    obtain ⟨part, present, same⟩ := List.mem_filterMap.1 member
    cases part with
    | alone parsed => cases same
    | frame other =>
      cases same
      exact present
  · intro member
    exact List.mem_filterMap.2 ⟨_, member, rfl⟩

theorem mem_unitObus_of_mem_unitGroups {parts : List UnitPart} {held : GroupObu}
    (member : held ∈ unitGroups parts) : held.parsed ∈ unitObus parts := by
  obtain ⟨whole, present, inside⟩ := List.mem_flatMap.1 member
  exact List.mem_flatMap.2 ⟨_, mem_unitFrames.1 present, .tail _ (List.mem_map_of_mem inside)⟩

namespace Mergeable

variable {count capacity : Nat} {last : Option TileLayout} {state behind : DecoderState}
  {unit : Bytes} {parts : List UnitPart}

theorem known (mergeable : Mergeable count capacity last state unit parts behind)
    (inRange : state.InRange) : ∀ part ∈ parts, part.Known behind.sequence :=
  known_of_interprets inRange mergeable.complete mergeable.sequenceFirst
    (Decode.parseUnit_interprets mergeable.parsed).2

theorem within (mergeable : Mergeable count capacity last state unit parts behind) :
    ∀ item ∈ unitObus parts, item.obu.Within unit :=
  (Decode.parseUnit_interprets mergeable.parsed).1

theorem typed (mergeable : Mergeable count capacity last state unit parts behind)
    (inRange : state.InRange) : ∀ item ∈ unitObus parts, item.Typed := by
  intro item member
  obtain ⟨part, present, inside⟩ := List.mem_flatMap.1 member
  exact (mergeable.known inRange part present).typed (mergeable.complete part present) item inside

/-- The groups of the unit's frames were read for the layouts of their frames. -/
theorem group (mergeable : Mergeable count capacity last state unit parts behind)
    (inRange : state.InRange) {held : GroupObu} (member : held ∈ unitGroups parts) :
    ∃ layout, TileGroup.Parsed held.obu.payload layout held.group := by
  obtain ⟨whole, present, inside⟩ := List.mem_flatMap.1 member
  obtain ⟨own, -, known⟩ := mergeable.known inRange _ (mem_unitFrames.1 present)
  exact ⟨_, known.group inside⟩

/-- The frames of the unit are cut along superblocks of their own size. -/
theorem layout (mergeable : Mergeable count capacity last state unit parts behind)
    (inRange : state.InRange) (positive : 1 ≤ count) {whole : WholeFrame}
    (member : whole ∈ unitFrames parts) :
    ∃ sequence, behind.sequence = some sequence ∧ whole.Known sequence ∧ whole.Complete count ∧
      whole.layout.grid = ⟨whole.frame.size.frameWidth, whole.frame.size.frameHeight,
        sequence.largeSuperblocks⟩ ∧
      whole.layout.Expressible ∧ whole.layout.grid.InRange := by
  have present := mem_unitFrames.1 member
  obtain ⟨own, found, known⟩ := mergeable.known inRange _ present
  have complete : whole.Complete count := mergeable.complete _ present
  obtain ⟨slots, kept, parsed⟩ := known.parsed
  have tiles : 1 ≤ whole.layout.tileCount := by
    rw [complete.tileCount]
    exact positive
  have legal := (FrameHeader.parse_cut parsed).grid_inRange known.inRange complete.own complete.cut
    tiles
  exact ⟨own, found, known, complete, legal⟩

end Mergeable

end Av1Tiling
