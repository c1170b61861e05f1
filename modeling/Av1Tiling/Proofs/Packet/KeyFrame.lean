import Av1Tiling.Proofs.Decoder.Completion
import Av1Tiling.Proofs.Frame.Resizing
import Av1Tiling.Proofs.Frame.Widening
import Av1Tiling.Proofs.Packet.Output
import Av1Tiling.Proofs.Sequence.Resizing

/-!
# Units with one intra frame

A unit with one frame that refers to no other is put together from its tiles as a unit that decodes
on its own: sequence header, frame header and tile info are written each for itself, and a decoder
that starts there finds them to agree. Its frame has the size that the tile infos declare, and the
tiles lie where they say. A frame that super-resolution scales has that size only if it had it
before.
-/

namespace Av1Tiling

open Write

/-! ## The unit -/

/-- The tile group that the OBU was found to hold. -/
def ParsedObu.group? (parsed : ParsedObu) : Option GroupObu :=
  match parsed.content with
  | .tileGroup group => some ⟨parsed.obu, group⟩
  | _ => none

theorem filterMap_group? (groups : List GroupObu) :
    (groups.map GroupObu.parsed).filterMap ParsedObu.group? = groups := by
  rw [List.filterMap_map]
  exact List.filterMap_some

/-- A unit with one frame: its OBUs and what they hold. -/
structure FrameUnit where
  delimiter : Obu
  opening : Obu
  sequence : SequenceHeader
  header : Obu
  frame : FrameHeader
  groups : List GroupObu

namespace FrameUnit

/-- The tile groups of the unit. -/
def tiles (unit : FrameUnit) : List ParsedObu :=
  unit.groups.map GroupObu.parsed

/-- The OBUs of the unit, in order. -/
def parsed (unit : FrameUnit) : List ParsedObu :=
  ⟨unit.delimiter, .temporalDelimiter⟩ :: ⟨unit.opening, .sequenceHeader unit.sequence⟩ ::
    ⟨unit.header, .frameHeader unit.frame⟩ :: unit.tiles

/-- The payloads of the headers are closed by trailing bits behind what is read of them. -/
structure Sealed (unit : FrameUnit) : Prop where
  opening : ∃ stop, TrailingBit.position unit.opening.payload = .ok stop ∧
    ∀ sequence reader, SequenceHeader.parse unit.opening.header unit.opening.payload =
      .ok sequence reader → reader.pos ≤ stop
  header : ∃ stop, TrailingBit.position unit.header.payload = .ok stop ∧
    ∀ span, unit.frame.layoutSpan = some span → span.stop ≤ stop

/-- It can be checked where the trailing bits are. -/
instance {unit : FrameUnit} : Decidable unit.Sealed :=
  decidable_of_iff
    ((match TrailingBit.position unit.opening.payload,
        SequenceHeader.parse unit.opening.header unit.opening.payload with
      | .ok stop, .ok _ reader => decide (reader.pos ≤ stop)
      | .ok _, .error _ _ => true
      | .error _, _ => false) = true ∧
    (match TrailingBit.position unit.header.payload with
      | .ok stop => unit.frame.layoutSpan.all fun span => decide (span.stop ≤ stop)
      | .error _ => false) = true) <| by
    constructor
    · rintro ⟨opening, header⟩
      constructor
      · cases closed : TrailingBit.position unit.opening.payload with
        | error cause => simp [closed] at opening
        | ok stop =>
          refine ⟨stop, rfl, fun sequence reader parsed => ?_⟩
          simpa [closed, parsed] using opening
      · cases closed : TrailingBit.position unit.header.payload with
        | error cause => simp [closed] at header
        | ok stop =>
          refine ⟨stop, rfl, fun span present => ?_⟩
          simpa [closed, present] using header
    · rintro ⟨⟨stop, closed, opening⟩, last, sealed, header⟩
      constructor
      · cases parsed : SequenceHeader.parse unit.opening.header unit.opening.payload with
        | error cause reader => simp [closed]
        | ok sequence reader => simpa [closed] using opening sequence reader parsed
      · cases present : unit.frame.layoutSpan with
        | none => simp [sealed]
        | some span => simpa [sealed] using header span present

/-- The unit with these OBUs, if there is one. -/
def ofParsed? : List ParsedObu → Option FrameUnit
  | ⟨delimiter, .temporalDelimiter⟩ :: ⟨opening, .sequenceHeader sequence⟩ ::
      ⟨header, .frameHeader frame⟩ :: rest =>
    let groups := rest.filterMap ParsedObu.group?
    let unit : FrameUnit := { delimiter, opening, sequence, header, frame, groups }
    if rest = unit.tiles then some unit else none
  | _ => none

theorem ofParsed?_eq_some {parsed : List ParsedObu} {unit : FrameUnit} :
    ofParsed? parsed = some unit ↔ parsed = unit.parsed := by
  constructor
  · intro found
    unfold ofParsed? at found
    split at found
    next =>
      dsimp only at found
      split at found
      next same =>
        cases found
        rw [FrameUnit.parsed, ← same]
      next => cases found
    next => cases found
  · rintro rfl
    simp only [ofParsed?, FrameUnit.parsed, tiles, filterMap_group?, if_true]

/-- What the headers of the unit are read from, over `slots`. -/
structure Opens (unit : FrameUnit) (slots kept : RefSlots) : Prop where
  delimiter : unit.delimiter.header.type = .temporalDelimiter
  opening : unit.opening.header.type = .sequenceHeader
  sequence : ∃ reader, SequenceHeader.parse unit.opening.header unit.opening.payload =
    .ok unit.sequence reader
  header : unit.header.header.type = .frameHeader ∨
    unit.header.header.type = .redundantFrameHeader
  frame : FrameHeader.parse unit.sequence unit.header.header unit.header.payload slots =
    .ok unit.frame kept

/-- A unit that brings a frame opens with its headers, and its tile groups are read behind them. -/
theorem interprets_iff {unit : FrameUnit} {state after : DecoderState}
    (own : unit.frame.showExisting = false) :
    Decode.Interprets state unit.parsed after ↔ ∃ kept, unit.Opens state.slots kept ∧
      Decode.Interprets ⟨some unit.sequence, kept, some unit.frame⟩ unit.tiles after := by
  constructor
  · intro interprets
    obtain ⟨_, first, interprets⟩ := Decode.Interprets.cons_iff.1 interprets
    obtain ⟨_, second, interprets⟩ := Decode.Interprets.cons_iff.1 interprets
    obtain ⟨_, third, later⟩ := Decode.Interprets.cons_iff.1 interprets
    cases Decode.interpret_outcome first with
    | temporalDelimiter delimiter =>
      cases Decode.interpret_outcome second with
      | sequenceHeader opening sequence =>
        cases Decode.interpret_outcome third with
        | frameHeader header _ present parsed =>
          cases present
          exact ⟨_, ⟨delimiter, opening, ⟨_, sequence⟩, header, parsed⟩, later⟩
        | existingFrame _ _ _ _ shown =>
          rw [own] at shown
          cases shown
  · rintro ⟨kept, ⟨delimiter, opening, ⟨reader, sequence⟩, header, frame⟩, later⟩
    have third : Decode.Outcome ⟨some unit.sequence, state.slots, none⟩ unit.header
        (.frameHeader unit.frame) _ := .frameHeader header rfl rfl frame own
    exact .cons (Decode.Outcome.temporalDelimiter delimiter).interpret_eq_ok
      (.cons (Decode.Outcome.sequenceHeader opening sequence).interpret_eq_ok
        (.cons third.interpret_eq_ok later))

/-- The frame of the unit is cut into a layout that can be expressed. -/
theorem Opens.layout {unit : FrameUnit} {slots kept : RefSlots} (opens : unit.Opens slots kept)
    (inRange : slots.InRange) (own : unit.frame.showExisting = false) :
    ∃ layout, unit.frame.layout = some layout ∧ layout.Expressible := by
  obtain ⟨reader, sequence⟩ := opens.sequence
  have sound := ((SequenceHeader.read_safe _).of_ok (.refl _) sequence).1
  exact ((FrameHeader.parse_ensures sound _ _).of_ok inRange opens.frame).1.layout own

end FrameUnit

/-- All bytes that are recorded for a tile. -/
def TileSlot.bytes (slot : TileSlot) : Bytes :=
  slot.info.groups.flatMap fun span => slot.unit.slice span.offset span.size

/-- From scratch `data` is read as a unit with one frame, which has the size that each of the tiles
    declares and as many tiles, each of them where it is declared to be. A single group holds the
    bytes that are recorded for each tile, in order. -/
def Decodes (data : Bytes) (tiles : List TileSlot) : Prop :=
  ∃ (unit : FrameUnit) (obu : Obu) (group : TileGroup) (layout : TileLayout) (last : DecoderState),
    Decode.parseUnit data .empty = .ok unit.parsed last ∧ unit.groups = [⟨obu, group⟩] ∧
    unit.frame.layout = some layout ∧ layout.tileCount = tiles.length ∧
    group.indices = List.range tiles.length ∧
    group.tileBytes obu.payload = tiles.map TileSlot.bytes ∧
    ∀ tile slot, tiles[tile]? = some slot →
      unit.frame.size.frameWidth = slot.info.geometry.width ∧
      unit.frame.size.frameHeight = slot.info.geometry.height ∧
      ∃ rect, layout.rect? tile = some rect ∧ rect.x = slot.info.geometry.x ∧
        rect.y = slot.info.geometry.y

/-! ## The header of the frame -/

/-- The header of an intra frame of the given size, which is cut into `layout`. -/
structure FrameHeader.Brings (frame : FrameHeader) (width height : Nat) (layout : TileLayout) :
    Prop where
  own : frame.showExisting = false
  intra : frame.type.isIntra = true
  width : frame.size.frameWidth = width
  height : frame.size.frameHeight = height
  cut : frame.layout = some layout

/-- The sequence header that is written for frames of the given size: another one, if the frame has
    not that size. A frame that gets another one is not scaled. -/
def FrameHeader.Retargets (frame : FrameHeader) (own : SequenceHeader) (width height : Nat)
    (target : Option SequenceHeader) : Prop :=
  if (frame.size.frameWidth, frame.size.frameHeight) = (width, height) then target = none
  else frame.size.superresDenom = FrameSize.superresNum ∧
    ∃ other, target = some other ∧ own.withDimensions width height = .ok other

namespace FrameHeader

variable {sequence : SequenceHeader} {header : ObuHeader} {payload : Bytes} {slots kept : RefSlots}
  {frame : FrameHeader} {width height : Nat} {target : Option SequenceHeader}

/-- The sequence header that is written is the one for its own size. -/
theorem Retargets.own {opening : ObuHeader} {reader : BitReader} {data : Bytes}
    (retargets : frame.Retargets sequence width height target)
    (parsed : SequenceHeader.parse opening data = .ok sequence reader) :
    sequence.withDimensions (target.getD sequence).dimensions.maxWidth
      (target.getD sequence).dimensions.maxHeight = .ok (target.getD sequence) := by
  obtain ⟨-, -, -, -, legal⟩ := SequenceHeader.parse_dimensions parsed
  unfold Retargets at retargets
  split at retargets
  · rw [retargets]
    exact SequenceHeader.withDimensions_own parsed
  · obtain ⟨-, other, rfl, resized⟩ := retargets
    obtain ⟨dimensions, rfl, -, wide, high, -⟩ := SequenceHeader.withDimensions_sound legal resized
    simp only [Option.getD_some, wide, high]
    exact resized

/-- The header of an intra frame that is written for another size and layout is read as one of that
    size and layout. -/
theorem writeRewritten_brings {chosen : TileLayout} {stop : Nat}
    (parsed : parse sequence header payload slots = .ok frame kept)
    (new : frame.showExisting = false) (intra : frame.type.isIntra = true)
    (legal : sequence.dimensions.Expressible) (closed : TrailingBit.position payload = .ok stop)
    (inside : ∀ span, frame.layoutSpan = some span → span.stop ≤ stop)
    (retargets : frame.Retargets sequence width height target)
    (grid : SuperblockGrid.checked width height sequence.largeSuperblocks = .ok chosen.grid)
    (expressible : chosen.Expressible) :
    ∃ content, Appends (frame.writeRewritten payload target chosen) content () ∧
      ∀ (place : ObuHeader) {again : ObuHeader}, again.extension = header.extension →
        ∀ (output : Bytes) (rest : Bits), Bits.ofBytes output = content ++ rest →
          ∃ found, parse { target.getD sequence with header := place } again output slots =
              .ok found kept ∧ found.Brings width height chosen := by
  unfold Retargets at retargets
  split at retargets
  next same =>
    obtain ⟨wide, high⟩ := Prod.mk.inj same
    subst retargets
    have alike : ∀ current, frame.layout = some current → chosen.grid = current.grid := by
      intro current cut
      rcases parse_cut parsed with ⟨shown, -⟩ | ⟨-, layout, found, checked⟩
      · rw [new] at shown
        cases shown
      · obtain rfl := Option.some.inj (found.symm.trans cut)
        rw [wide, high, grid] at checked
        exact Except.ok.inj checked
    obtain ⟨content, appends, reads⟩ :=
      writeRewritten_recuts parsed new closed inside alike expressible
    refine ⟨content, appends, fun place again layers output rest bits => ?_⟩
    obtain ⟨layoutSpan, again⟩ := reads place layers output rest bits
    exact ⟨_, again, new, intra, wide, high, rfl⟩
  next =>
    obtain ⟨unscaled, other, rfl, resized⟩ := retargets
    obtain ⟨dimensions, rfl, able, wide, high, -⟩ :=
      SequenceHeader.withDimensions_sound legal resized
    have fits := fits_of_unscaled parsed new unscaled (fun _ => able.codable) able.codable.small.1
      (by rw [wide, high]; exact grid) expressible
    obtain ⟨_, _, -, -, appends, sizeSpan, renderSpan, reads⟩ :=
      writeRewritten_resizes parsed new (parse_coded parsed new intra) closed inside fits
    refine ⟨_, appends, fun place again layers output rest bits => ?_⟩
    exact ⟨_, parse_again place layers (reads output rest bits) new, new, intra, wide, high, rfl⟩

end FrameHeader

/-! ## Writing the unit -/

namespace Assemble

/-- An OBU with the payload `data` was written in the place of another one. -/
structure Replaced (obu : Obu) (data : Bytes) (ahead behind : BitWriter) : Prop where
  tight : behind.Tight
  small : data.length ≤ Emit.maxPayload
  takes : ahead.Takes (Obu.coded obu.header data) behind

variable {template : Template} {obu : Obu} {assembly behind : Assembly}

theorem delimiter_replaced (inRange : obu.header.InRange) (tight : assembly.writer.Tight)
    (run : Assemble.obu template ⟨obu, .temporalDelimiter⟩ assembly = .ok () behind) :
    ∃ writer, behind = { assembly with writer } ∧ Replaced obu [] assembly.writer writer := by
  obtain ⟨writer, data, rfl, tight, small, takes, empty⟩ :=
    replace_written inRange (.pure ()) tight run
  obtain rfl : data = [] := Bits.ofBytes_injective (empty rfl)
  exact ⟨writer, rfl, tight, small, takes⟩

/-- What is written in the place of a sequence header is read as the one for the whole frame. -/
theorem sequenceHeader_replaced {own : SequenceHeader} {reader : BitReader} {stop : Nat}
    (parsed : SequenceHeader.parse obu.header obu.payload = .ok own reader)
    (closed : TrailingBit.position obu.payload = .ok stop) (inside : reader.pos ≤ stop)
    (resized : own.withDimensions (template.target.getD own).dimensions.maxWidth
      (template.target.getD own).dimensions.maxHeight = .ok (template.target.getD own))
    (inRange : obu.header.InRange) (tight : assembly.writer.Tight)
    (run : Assemble.obu template ⟨obu, .sequenceHeader own⟩ assembly = .ok () behind) :
    ∃ writer data, behind = { assembly with writer } ∧
      Replaced obu data assembly.writer writer ∧
      ∀ again, ∃ last, SequenceHeader.parse again data =
        .ok { template.target.getD own with header := again } last := by
  have short : own.dimensions.span.stop ≤ stop :=
    (SequenceHeader.parse_dimensions_le parsed).trans inside
  have appends := SequenceHeader.writeWithDimensions_splices parsed closed short resized
  have grows := (appends.grows (own.writeWithDimensions_widens _ _ _)
    (own.writeWithDimensions_grows _ _ _)).emit
  obtain ⟨writer, data, rfl, tight, small, takes, _, rest, ⟨_, _, rfl, rfl, rfl⟩, -, bits⟩ :=
    replace_content inRange (grows.bind fun _ _ _ _ => .pure _) tight run
  rw [List.append_nil] at bits
  exact ⟨writer, data, rfl, ⟨tight, small, takes⟩, fun again =>
    SequenceHeader.parse_resized parsed inside resized bits⟩

/-- What is written in the place of the header of an intra frame is read as one of the whole
    size. -/
theorem frameHeader_replaced {sequence : SequenceHeader} {frame : FrameHeader}
    {slots kept : RefSlots} {stop : Nat} (present : template.sequence = some sequence)
    (parsed : FrameHeader.parse sequence obu.header obu.payload slots = .ok frame kept)
    (new : frame.showExisting = false) (intra : frame.type.isIntra = true)
    (legal : sequence.dimensions.Expressible)
    (expressible : ∀ layout, frame.layout = some layout → layout.Expressible)
    (closed : TrailingBit.position obu.payload = .ok stop)
    (inside : ∀ span, frame.layoutSpan = some span → span.stop ≤ stop)
    (retargets : frame.Retargets sequence template.grid.geometry.width
      template.grid.geometry.height template.target)
    (inRange : obu.header.InRange) (tight : assembly.writer.Tight)
    (run : Assemble.obu template ⟨obu, .frameHeader frame⟩ assembly = .ok () behind) :
    ∃ writer data chosen,
      behind = {
        assembly with
        writer
        frame := frame.layout.map fun own => { template := own, layout := chosen }
        firstGroup := assembly.groups } ∧
      Replaced obu data assembly.writer writer ∧
      template.grid.layoutFor frame sequence = .ok chosen ∧
      ∀ (place : ObuHeader) {again : ObuHeader}, again.extension = obu.header.extension →
        ∃ found, FrameHeader.parse { template.target.getD sequence with header := place } again
            data slots = .ok found kept ∧
          found.Brings template.grid.geometry.width template.grid.geometry.height chosen := by
  simp only [Assemble.obu, new, Bool.false_eq_true, if_false] at run
  obtain ⟨known, chosen, between, same, layout, replaced, rfl⟩ := frameHeader_inv run
  obtain rfl := Option.some.inj (present.symm.trans same)
  obtain ⟨grid, able, -⟩ := TileGrid.layoutFor_sound layout expressible
  obtain ⟨content, appends, reads⟩ :=
    FrameHeader.writeRewritten_brings parsed new intra legal closed inside retargets grid able
  obtain ⟨writer, data, rfl, tight, small, takes, _, rest, rfl, -, bits⟩ :=
    replace_content inRange (appends.grows (frame.writeRewritten_widens _ _ _)
      (frame.writeRewritten_grows _ _ _)) tight replaced
  exact ⟨writer, data, chosen, rfl, ⟨tight, small, takes⟩, layout, fun place again layers =>
    reads place layers data rest bits⟩

end Assemble

/-- No tile groups come where no frame is waited for. -/
theorem Decode.Interprets.groups_eq_nil {state after : DecoderState}
    {groups : List GroupObu}
    (interprets : Interprets state (groups.map GroupObu.parsed) after)
    (idle : state.pending = none) : groups = [] := by
  cases groups with
  | nil => rfl
  | cons held rest =>
    obtain ⟨_, run, -⟩ := Interprets.cons_iff.1 interprets
    cases interpret_outcome run with
    | tileGroup _ waiting =>
      rw [idle] at waiting
      cases waiting
    | lastTileGroup _ waiting =>
      rw [idle] at waiting
      cases waiting

/-- Tile groups leave the sequence header alone. -/
theorem Decode.Interprets.groups_sequence {state after : DecoderState}
    {groups : List GroupObu}
    (interprets : Interprets state (groups.map GroupObu.parsed) after) :
    after.sequence = state.sequence := by
  induction groups generalizing state with
  | nil =>
    cases interprets
    rfl
  | cons held rest ih =>
    obtain ⟨_, run, later⟩ := Interprets.cons_iff.1 interprets
    have same := ih later
    cases interpret_outcome run with
    | tileGroup => exact same
    | lastTileGroup => exact same

namespace Assemble

variable {template : Template} {behind : Assembly}

/-- In the place of the tile groups of a frame one group with all its tiles is written. -/
theorem tileGroups_replaced {groups : List GroupObu} {state after : DecoderState}
    {header : FrameHeader} {frame : OpenFrame} {writer : BitWriter} {firstGroup count : Nat}
    {tiles : List Bytes}
    (interprets : Decode.Interprets state (groups.map GroupObu.parsed) after)
    (waiting : state.pending = some header) (cut : header.layout = some frame.template)
    (idle : after.pending = none) (inRange : ∀ held ∈ groups, held.obu.header.InRange)
    (come : template.tiles.map (fun slot =>
      slot.info.tileData slot.unit firstGroup (count + groups.length)) = tiles)
    (tight : writer.Tight)
    (run : (groups.map GroupObu.parsed).forM (Assemble.obu template)
      ⟨writer, some frame, firstGroup, count⟩ = .ok () behind) :
    ∃ last ∈ groups, last.obu.header.type = .tileGroup ∧
      Replaced last.obu (TileGroup.coded frame.layout tiles) writer behind.writer ∧
      tiles.length = frame.layout.tileCount ∧
      TileGroup.Sized frame.layout.tileSizeBytes tiles := by
  induction groups generalizing state count with
  | nil =>
    cases interprets
    rw [waiting] at idle
    cases idle
  | cons held rest ih =>
    obtain ⟨own, others⟩ := List.forall_mem_cons.1 inRange
    obtain ⟨_, between, first, run⟩ := Step.bind_eq_ok.1 run
    obtain ⟨_, interpreted, later⟩ := Decode.Interprets.cons_iff.1 interprets
    cases Decode.interpret_outcome interpreted with
    | tileGroup type present same parsed more =>
      obtain rfl := Option.some.inj (present.symm.trans waiting)
      obtain rfl := Option.some.inj (same.symm.trans cut)
      obtain rfl : _ = between := (EStateM.Result.ok.inj
        ((tileGroup_counts template held.obu rfl more).symm.trans first)).2
      obtain ⟨last, member, rest⟩ := ih later waiting others
        (by rw [Nat.add_right_comm, Nat.add_assoc]; exact come) run
      exact ⟨last, .tail _ member, rest⟩
    | lastTileGroup type present same parsed last =>
      obtain rfl := Option.some.inj (present.symm.trans waiting)
      obtain rfl := Option.some.inj (same.symm.trans cut)
      obtain rfl := later.groups_eq_nil rfl
      obtain ⟨behind, rfl, tight, small, takes, all, sized⟩ :=
        tileGroup_writes last come own tight first
      cases run
      exact ⟨held, .head _, type, ⟨tight, small, takes⟩, all, sized⟩

end Assemble

/-! ## Reading it again -/

namespace FrameUnit

variable {unit : FrameUnit} {template : Template} {state after : DecoderState}

/-- The OBUs that are written for the unit: its headers with other payloads, and a single group. -/
def row (unit : FrameUnit) (opening header : Bytes) (group : Obu) (tiles : Bytes) :
    List (ObuHeader × Bytes) :=
  [(unit.delimiter.header, []), (unit.opening.header, opening), (unit.header.header, header),
    (group.header, tiles)]

/-- What is written for a unit with one intra frame. -/
theorem written_row {capacity : Nat} {data : Bytes} {kept : RefSlots} {tiles : List Bytes}
    (opens : unit.Opens state.slots kept)
    (later : Decode.Interprets ⟨some unit.sequence, kept, some unit.frame⟩ unit.tiles after)
    (inRange : state.InRange) (headers : ∀ item ∈ unit.parsed, item.obu.header.InRange)
    (own : unit.frame.showExisting = false) (intra : unit.frame.type.isIntra = true)
    (idle : after.pending = none) (seals : unit.Sealed)
    (present : template.sequence = some unit.sequence)
    (retargets : unit.frame.Retargets unit.sequence template.grid.geometry.width
      template.grid.geometry.height template.target)
    (come : template.tiles.map (fun slot =>
      slot.info.tileData slot.unit 0 unit.groups.length) = tiles)
    (run : Assemble.unit template unit.parsed capacity = .ok data) :
    ∃ (opening header : Bytes) (group : Obu) (chosen : TileLayout),
      group.header.type = .tileGroup ∧
      template.grid.layoutFor unit.frame unit.sequence = .ok chosen ∧ chosen.Expressible ∧
      tiles.length = chosen.tileCount ∧ TileGroup.Sized chosen.tileSizeBytes tiles ∧
      (∀ item ∈ unit.row opening header group (TileGroup.coded chosen tiles),
        Obu.Writable item.1 item.2) ∧
      data = Obu.rowBytes (unit.row opening header group (TileGroup.coded chosen tiles)) ∧
      (∀ again, ∃ last, SequenceHeader.parse again opening =
        .ok { template.target.getD unit.sequence with header := again } last) ∧
      ∀ (place : ObuHeader) {again : ObuHeader}, again.extension = unit.header.header.extension →
        ∃ found, FrameHeader.parse { template.target.getD unit.sequence with header := place }
            again header state.slots = .ok found kept ∧
          found.Brings template.grid.geometry.width template.grid.geometry.height chosen := by
  obtain ⟨reader, sequence⟩ := opens.sequence
  obtain ⟨stop, closed, short⟩ := seals.opening
  obtain ⟨end_, sealed, inside⟩ := seals.header
  obtain ⟨-, -, -, -, legal⟩ := SequenceHeader.parse_dimensions sequence
  obtain ⟨current, cut, able⟩ := opens.layout inRange.slots own
  have expressible : ∀ layout, unit.frame.layout = some layout → layout.Expressible :=
    fun other same => Option.some.inj (cut.symm.trans same) ▸ able
  simp only [parsed, List.forall_mem_cons] at headers
  obtain ⟨range₁, range₂, range₃, range₄⟩ := headers
  obtain ⟨behind, walk, ends⟩ := Assemble.unit_inv run
  obtain ⟨_, _, run₁, walk⟩ := Step.bind_eq_ok.1 walk
  obtain ⟨writer₁, rfl, first⟩ :=
    Assemble.delimiter_replaced range₁ (BitWriter.tight_empty capacity) run₁
  obtain ⟨_, _, run₂, walk⟩ := Step.bind_eq_ok.1 walk
  obtain ⟨writer₂, opening, rfl, second, opened⟩ := Assemble.sequenceHeader_replaced sequence
    closed (short _ _ sequence) (retargets.own sequence) range₂ first.tight run₂
  obtain ⟨_, _, run₃, walk⟩ := Step.bind_eq_ok.1 walk
  obtain ⟨writer₃, header, chosen, rfl, third, layout, brought⟩ := Assemble.frameHeader_replaced
    present opens.frame own intra legal expressible sealed inside retargets range₃ second.tight run₃
  rw [cut, Option.map_some] at walk
  have groups : ∀ item ∈ unit.groups, item.obu.header.InRange := fun item member =>
    range₄ _ (List.mem_map_of_mem member)
  rw [← Nat.zero_add unit.groups.length] at come
  obtain ⟨⟨group, _⟩, member, type, fourth, all, sized⟩ :=
    Assemble.tileGroups_replaced later rfl cut idle groups come third.tight walk
  have whole := first.takes.trans (second.takes.trans (third.takes.trans
    (fourth.takes.trans (.refl fourth.takes.aligned))))
  obtain ⟨-, chosenAble, -⟩ := TileGrid.layoutFor_sound layout expressible
  refine ⟨opening, header, group, chosen, type, layout, chosenAble, all, sized, ?_,
    (ends _ fourth.tight whole).1, opened, brought⟩
  simp only [row, List.forall_mem_cons]
  refine ⟨⟨range₁, ?_, first.small⟩, ⟨range₂, ?_, second.small⟩, ⟨range₃, ?_, third.small⟩,
    ⟨groups _ member, ?_, fourth.small⟩, by rintro _ ⟨⟩⟩
  · rw [opens.delimiter]
    rfl
  · rw [opens.opening]
    rfl
  · rcases opens.header with type | type <;> rw [type] <;> rfl
  · rw [type]
    rfl

/-- A unit with one intra frame is written as one that a decoder reads from scratch, with a frame of
    the collected size and a single group with all tiles. -/
theorem written_brings {capacity : Nat} {data : Bytes}
    (interprets : Decode.Interprets state unit.parsed after) (inRange : state.InRange)
    (headers : ∀ item ∈ unit.parsed, item.obu.header.InRange)
    (own : unit.frame.showExisting = false) (intra : unit.frame.type.isIntra = true)
    (idle : after.pending = none) (seals : unit.Sealed)
    (present : template.sequence = some unit.sequence) (nonempty : template.tiles ≠ [])
    (retargets : unit.frame.Retargets unit.sequence template.grid.geometry.width
      template.grid.geometry.height template.target)
    (run : Assemble.unit template unit.parsed capacity = .ok data) :
    ∃ (written : FrameUnit) (group : Obu) (tiles : TileGroup) (chosen : TileLayout)
        (last : DecoderState),
      Decode.parseUnit data .empty = .ok written.parsed last ∧ written.groups = [⟨group, tiles⟩] ∧
      template.grid.layoutFor unit.frame unit.sequence = .ok chosen ∧
      written.frame.Brings template.grid.geometry.width template.grid.geometry.height chosen ∧
      tiles.indices = List.range template.tiles.length ∧
      tiles.tileBytes group.payload = template.tiles.map fun slot =>
        slot.info.tileData slot.unit 0 unit.groups.length := by
  generalize come : (template.tiles.map fun slot =>
    slot.info.tileData slot.unit 0 unit.groups.length) = bytes
  have same : template.tiles.length = bytes.length := by rw [← come, List.length_map]
  obtain ⟨kept, opens, later⟩ := (interprets_iff own).1 interprets
  obtain ⟨opening, header, group, chosen, type, layout, able, all, sized, writable, rfl, opened,
    brought⟩ :=
    written_row opens later inRange headers own intra idle seals present retargets come run
  obtain ⟨two, three, four, places⟩ : ∃ two three four,
      Obu.row 0 (unit.row opening header group (TileGroup.coded chosen bytes)) =
        [.placed 0 unit.delimiter.header [], .placed two unit.opening.header opening,
          .placed three unit.header.header header,
          .placed four group.header (TileGroup.coded chosen bytes)] := ⟨_, _, _, rfl⟩
  obtain ⟨reader, sequence⟩ := opened (Obu.placed two unit.opening.header opening).header
  obtain ⟨found, frame, brings⟩ := brought (Obu.placed two unit.opening.header opening).header
    (show (Obu.placed three unit.header.header header).header.extension = _ from rfl)
  generalize ({ template.target.getD unit.sequence with
    header := (Obu.placed two unit.opening.header opening).header } : SequenceHeader) = rewritten
    at sequence frame
  have sound := ((SequenceHeader.read_safe _).of_ok (.refl _) sequence).1
  obtain ⟨kept, frame⟩ := FrameHeader.parse_of_intra sound frame brings.own brings.intra .empty
  obtain ⟨tiles, success, indices, carried⟩ := TileGroup.parse_coded able.tileSizeBytes all
    (List.ne_nil_of_length_pos (same ▸ List.length_pos_iff.2 nonempty)) sized
  have ends := TileGroup.endsFrame_iff.2 ((TileGroup.parse_ranged success).whole indices).2
  have interpreted : Decode.Outcome ⟨some rewritten, kept, some found⟩
      (.placed four group.header (TileGroup.coded chosen bytes)) (.tileGroup tiles) _ :=
    .lastTileGroup type rfl brings.cut success ends
  have read : Decode.Interprets .empty (parsed ⟨.placed 0 unit.delimiter.header [],
      .placed two unit.opening.header opening, rewritten, .placed three unit.header.header header,
      found, [⟨.placed four group.header (TileGroup.coded chosen bytes), tiles⟩]⟩) _ :=
    (interprets_iff brings.own).2 ⟨kept, ⟨opens.delimiter, opens.opening, ⟨reader, sequence⟩,
      opens.header, frame⟩, .cons interpreted.interpret_eq_ok (.nil _)⟩
  refine ⟨_, _, tiles, chosen, _, read.parseUnit_eq_ok ?_, rfl, layout, brings, ?_, carried⟩
  · rw [(Obu.readAll_row writable).1, places]
    rfl
  · rw [TileGroup.indices, indices, ← all, same]

theorem groupCount_parsed (unit : FrameUnit) : groupCount unit.parsed = unit.groups.length := by
  simp [groupCount, parsed, tiles, GroupObu.parsed, ParsedObu.isGroup, Function.comp_def]

/-- The frame of the unit has the collected size, or another sequence header is written. -/
theorem retargets_of_templateFor {grid : TileGrid} {target : Option SequenceHeader}
    (cut : unit.frame.layout.isSome = true)
    (scaled : unit.frame.size.superresDenom = FrameSize.superresNum ∨
      (unit.frame.size.frameWidth, unit.frame.size.frameHeight) =
        (grid.geometry.width, grid.geometry.height))
    (made : if grid.matchesFrameSize unit.parsed unit.sequence then target = none
      else ∃ other, target = some other ∧
        unit.sequence.withDimensions grid.geometry.width grid.geometry.height = .ok other) :
    unit.frame.Retargets unit.sequence grid.geometry.width grid.geometry.height target := by
  have size : grid.matchesFrameSize unit.parsed unit.sequence =
      ((unit.frame.size.frameWidth, unit.frame.size.frameHeight) ==
        (grid.geometry.width, grid.geometry.height)) := by
    simp [TileGrid.matchesFrameSize, parsed, cut]
  simp only [size, beq_iff_eq] at made
  unfold FrameHeader.Retargets
  split
  next same => rwa [if_pos same] at made
  next other =>
    rw [if_neg other] at made
    exact ⟨scaled.resolve_right other, made⟩

end FrameUnit

namespace TileRepacker

open Repack

variable {repacker next : TileRepacker} {out : Packet}

/-- A unit with one intra frame that was put together is read from scratch, and brings the frame that
    the tiles declare: of the declared size, with each tile where it was declared to be and with the
    bytes that are recorded for it. The frame must not be scaled by super-resolution, unless that of
    the first tile has the declared size already. -/
theorem Ran.output_decodes {config : RepackConfig} {events : List Event} {packet : Packet}
    {first : TileSlot} {rest : List TileSlot} {unit : FrameUnit} {after : DecoderState}
    (ran : Ran config events repacker) (run : repacker.filter packet = (.ok (some out), next))
    (lined : Lined config.tileCount (packet :: taken events) (first :: rest))
    (parsed : Decode.parseUnit first.unit repacker.decoder = .ok unit.parsed after)
    (own : unit.frame.showExisting = false) (intra : unit.frame.type.isIntra = true)
    (idle : after.pending = none) (seals : unit.Sealed)
    (scaled : unit.frame.size.superresDenom = FrameSize.superresNum ∨
      (unit.frame.size.frameWidth, unit.frame.size.frameHeight) =
        (first.info.geometry.width, first.info.geometry.height)) :
    Decodes out.data (first :: rest) := by
  have whole := (ran.waits.2.output run).1
  obtain ⟨_, _, _, template, other, again, made, data⟩ := ran.output_assembled run
  obtain ⟨rfl, rfl⟩ := List.cons.inj (other.unique whole.companions.distinct lined)
  obtain ⟨rfl, rfl⟩ := EStateM.Result.ok.inj (again.symm.trans parsed)
  obtain ⟨collected, present, come, counted, target⟩ := templateFor_sound made
  obtain ⟨within, interprets⟩ := Decode.parseUnit_interprets parsed
  rw [interprets.countP_type, FrameUnit.groupCount_parsed] at counted
  obtain ⟨kept, opens, groups⟩ := (FrameUnit.interprets_iff own).1 interprets
  obtain ⟨current, cut, able⟩ := opens.layout ran.inRange.slots own
  have sequence : template.sequence = some unit.sequence := present.trans groups.groups_sequence
  have geometry := (TileGrid.collect_sound collected (List.cons_ne_nil _ _)).geometry
  rw [← geometry] at scaled
  have retargets := FrameUnit.retargets_of_templateFor (cut ▸ rfl) scaled
    (target _ groups.groups_sequence)
  obtain ⟨written, group, tiles, chosen, last, read, only, layout, brings, indices, bytes⟩ :=
    FrameUnit.written_brings interprets ran.inRange (fun item member => (within item member).header)
      own intra idle seals sequence (come ▸ List.cons_ne_nil _ _) retargets data
  obtain ⟨count, placed⟩ := TileGrid.rect?_of_layoutFor collected (List.cons_ne_nil _ _) layout
    fun other same => Option.some.inj (cut.symm.trans same) ▸ able
  rw [come] at indices bytes
  refine ⟨written, group, tiles, chosen, last, read, only, brings.cut, ?_, ?_, ?_, ?_⟩
  · rw [count, List.length_map]
  · exact indices
  · rw [bytes]
    refine List.map_congr_left fun slot member => ?_
    rw [TileInfo.tileData, TileSlot.bytes, List.drop_zero, Nat.sub_zero, ← counted slot member,
      List.take_length]
  · intro tile slot here
    obtain ⟨width, height, rect, found, x, y⟩ := placed tile slot.info.geometry
      (by rw [List.getElem?_map, here]; rfl)
    rw [width, height, brings.width, brings.height, geometry]
    exact ⟨rfl, rfl, rect, found, x, y⟩

/-! ### Two halves of a frame -/

/-- The two halves of a frame of 128 by 64. Each is a frame of its own behind the same headers. -/
def halves (headers : Bytes) : List Packet :=
  [(0, 0xAA), (1, 0xBB)].flatMap fun (tile, byte) =>
    (TileSplitter.filter ⟨⟨some tile, some ⟨128, 64, 2, 1, 64 * tile, 0, 64, 64⟩⟩, .empty, none⟩
      ⟨headers ++ [0x22, 0x01, byte], some 1, none, 0, 0, none⟩).1

/-- Two tiles are put together, and the unit of the first one is a frame for which `holds`. -/
def joins (packets : List Packet)
    (holds : Bytes → TileGeometry → TileGeometry → FrameUnit → DecoderState → Bool) : Bool :=
  match packets with
  | [one, two] =>
    let (answer, repacker) := TileRepacker.filter ⟨⟨2, 64⟩, [none, none], 0, .empty⟩ one
    match answer, (repacker.filter two).1, TileInfo.splitPacket one.data,
      TileInfo.splitPacket two.data with
    | .ok none, .ok (some out), .ok (info, bytes), .ok (other, _) =>
      match Decode.parseUnit bytes repacker.decoder with
      | .ok parsed after =>
        decide (one.tileIndex = some 0 ∧ two.tileIndex = some 1) &&
          (FrameUnit.ofParsed? parsed).any fun unit =>
            holds out.data info.geometry other.geometry unit after
      | .error _ _ => false
    | _, _, _, _ => false
  | _ => false

theorem Ran.of_joins {packets : List Packet}
    {holds : Bytes → TileGeometry → TileGeometry → FrameUnit → DecoderState → Bool}
    (joined : joins packets holds = true) :
    ∃ one two repacker out next first second unit after, packets = [one, two] ∧
      Ran ⟨2, 64⟩ [.filter one (.ok none)] repacker ∧
      repacker.filter two = (.ok (some out), next) ∧ Lined 2 [two, one] [first, second] ∧
      Decode.parseUnit first.unit repacker.decoder = .ok (FrameUnit.parsed unit) after ∧
      holds out.data first.info.geometry second.info.geometry unit after = true := by
  unfold joins at joined
  split at joined
  next one two =>
    have opened : Ran ⟨2, 64⟩ [] ⟨⟨2, 64⟩, [none, none], 0, .empty⟩ := .opened rfl
    have ran := opened.filter one
    generalize filtered : TileRepacker.filter ⟨⟨2, 64⟩, [none, none], 0, .empty⟩ one = result
      at joined ran
    obtain ⟨answer, repacker⟩ := result
    dsimp only at joined ran
    split at joined
    next out info bytes other _ answered split splitOther =>
      split at joined
      next parsed after read =>
        simp only [Bool.and_eq_true, decide_eq_true_eq, Option.any_eq_true] at joined
        obtain ⟨⟨zero, last⟩, unit, found, known⟩ := joined
        obtain rfl := FrameUnit.ofParsed?_eq_some.1 found
        have run : repacker.filter two = (.ok (some out), (repacker.filter two).2) := by
          rw [← answered]
        obtain ⟨first, rest, _, _, lined, -⟩ := (ran (.ok none)).output_assembled run
        obtain ⟨second, rfl⟩ : ∃ second, rest = [second] :=
          List.length_eq_one_iff.1 (Nat.succ.inj lined.length)
        obtain ⟨packet, member, index, holds⟩ := lined.holds 0 first rfl
        obtain rfl : packet = one := by
          rcases List.mem_cons.1 member with rfl | member
          · rw [last] at index
            cases index
          · exact List.mem_singleton.1 member
        obtain ⟨rfl, rfl⟩ := Prod.mk.inj (Except.ok.inj (split.symm.trans holds.split))
        obtain ⟨other, member, index, holds⟩ := lined.holds 1 second rfl
        obtain rfl : other = two := by
          rcases List.mem_cons.1 member with rfl | member
          · rfl
          · rw [List.mem_singleton.1 member, zero] at index
            cases index
        obtain ⟨rfl, -⟩ := Prod.mk.inj (Except.ok.inj (splitOther.symm.trans holds.split))
        exact ⟨_, _, _, _, _, first, second, unit, after, rfl, ran (.ok none), run, lined, read,
          known⟩
      next => cases joined
    next => cases joined
  next => cases joined

/-- The headers of a key frame that says itself that it is 64 by 64, and is to be shown at 32 by
    32. -/
def sizedHeaders : Bytes :=
  [0x12, 0x00, 0x0A, 0x0A, 0x00, 0x00, 0x00, 0x03, 0x33, 0xF7, 0xE0, 0x00, 0x00, 0x40,
    0x1A, 0x07, 0x15, 0xFB, 0xF8, 0x00, 0xF8, 0x00, 0xFB]

theorem Ran.output_decodes_sized_halves :
    ∃ one two repacker out next first rest unit after, halves sizedHeaders = [one, two] ∧
      Ran ⟨2, 64⟩ [.filter one (.ok none)] repacker ∧
      repacker.filter two = (.ok (some out), next) ∧ Lined 2 [two, one] (first :: rest) ∧
      Decode.parseUnit first.unit repacker.decoder = .ok (FrameUnit.parsed unit) after ∧
      unit.frame.showExisting = false ∧ unit.frame.type.isIntra = true ∧ after.pending = none ∧
      unit.Sealed ∧ unit.frame.size.superresDenom = FrameSize.superresNum ∧
      Decodes out.data (first :: rest) := by
  have joined : joins (halves sizedHeaders) (fun _ _ _ unit after =>
      decide (unit.frame.showExisting = false ∧ unit.frame.type.isIntra = true ∧
        after.pending = none ∧ unit.Sealed ∧
        unit.frame.size.superresDenom = FrameSize.superresNum)) = true := by
    decide +kernel
  obtain ⟨one, two, repacker, out, next, first, second, unit, after, made, ran, run, lined, read,
    known⟩ := Ran.of_joins joined
  obtain ⟨own, intra, idle, seals, unscaled⟩ := of_decide_eq_true known
  exact ⟨one, two, repacker, out, next, first, [second], unit, after, made, ran, run, lined, read,
    own, intra, idle, seals, unscaled,
    ran.output_decodes run lined read own intra idle seals (.inl unscaled)⟩

/-- The headers of a key frame of 64 by 64 that is scaled by super-resolution. -/
def scaledHeaders : Bytes :=
  [0x12, 0x00, 0x0A, 0x0A, 0x00, 0x00, 0x00, 0x03, 0x33, 0xF7, 0xE0, 0x02, 0x00, 0x40,
    0x1A, 0x02, 0x12, 0x0C]

/-- A frame that is scaled is put together as one of another width than the tiles declare: what they
    declare becomes the width behind super-resolution. -/
theorem not_output_decodes : ¬∀ (config : RepackConfig) (events : List Event)
    (repacker next : TileRepacker) (packet out : Packet) (first : TileSlot) (rest : List TileSlot)
    (unit : FrameUnit) (after : DecoderState),
    Ran config events repacker → repacker.filter packet = (.ok (some out), next) →
    Lined config.tileCount (packet :: taken events) (first :: rest) →
    Decode.parseUnit first.unit repacker.decoder = .ok unit.parsed after →
    unit.frame.showExisting = false → unit.frame.type = .key → unit.frame.showFrame = true →
    after.pending = none → unit.Sealed → Decodes out.data (first :: rest) := by
  intro claim
  have joined : joins (halves scaledHeaders) (fun data geometry _ unit after =>
      decide (unit.frame.showExisting = false ∧ unit.frame.type = .key ∧
        unit.frame.showFrame = true ∧ after.pending = none ∧ unit.Sealed) &&
      match Decode.parseUnit data .empty with
      | .ok parsed _ => (FrameUnit.ofParsed? parsed).any (·.frame.size.frameWidth != geometry.width)
      | .error _ _ => true) = true := by
    decide +kernel
  obtain ⟨one, two, repacker, out, next, first, second, unit, after, -, ran, run, lined, read,
    known⟩ := Ran.of_joins joined
  obtain ⟨facts, narrow⟩ := Bool.and_eq_true_iff.1 known
  obtain ⟨own, key, shown, idle, seals⟩ := of_decide_eq_true facts
  obtain ⟨written, _, _, _, last, parsed, -, -, -, -, -, declared⟩ :=
    claim _ _ _ _ _ _ _ _ _ _ ran run lined read own key shown idle seals
  simp only [parsed, FrameUnit.ofParsed?_eq_some.2 rfl, Option.any_some, bne_iff_ne] at narrow
  exact narrow (declared 0 first rfl).1

end TileRepacker

end Av1Tiling
