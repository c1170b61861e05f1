import Av1Tiling.Proofs.Frame.Growth
import Av1Tiling.Proofs.Obu.Rereading
import Av1Tiling.Proofs.Obu.Written
import Av1Tiling.Proofs.Packet.Assembly
import Av1Tiling.Proofs.Packet.History
import Av1Tiling.Proofs.Tile.Whole

/-!
# What an output is made of

An output follows the unit of the first tile, OBU by OBU. Temporal delimiters, sequence headers and
frame headers are written again; of the tile groups of a frame only the last is, with the bytes that
all tile infos record for the frame; everything else is left out (`Repacked`). What was written is
read as just these OBUs.
-/

namespace Av1Tiling

open Write

/-! ## The OBUs of an output -/

/-- The OBU holds tiles of a frame. -/
def ParsedObu.isGroup (parsed : ParsedObu) : Bool :=
  match parsed.content with
  | .tileGroup _ => true
  | _ => false

/-- Number of tile groups among some OBUs. -/
def groupCount (parsed : List ParsedObu) : Nat :=
  parsed.countP ParsedObu.isGroup

/-- The bytes that are recorded for a tile in `count` tile groups of its unit, from `start` on. -/
def TileSlot.recorded (slot : TileSlot) (start count : Nat) : Bytes :=
  ((slot.info.groups.drop start).take count).flatMap fun span =>
    slot.unit.slice span.offset span.size

/-- The header of `frame` stands behind `before`, and behind it there is no other frame header and
    not the last tile group of the frame. -/
structure Opened (front before between : List ParsedObu) (frame : FrameHeader)
    (own : TileLayout) : Prop where
  split : ∃ header, front = before ++ ⟨header, .frameHeader frame⟩ :: between
  cut : frame.layout = some own
  only : ∀ item ∈ between, ∀ other, item.content ≠ .frameHeader other
  more : ∀ item ∈ between, ∀ group, item.content = .tileGroup group → group.endsFrame own = false

/-- What is written for an OBU behind those of `front` that holds `content`. -/
inductive Replaces (grid : TileGrid) (sequence : Option SequenceHeader) (tiles : List TileSlot)
    (front : List ParsedObu) : ObuContent → Bytes → Prop
  | temporalDelimiter : Replaces grid sequence tiles front .temporalDelimiter []
  | sequenceHeader {own : SequenceHeader} {payload : Bytes} :
      Replaces grid sequence tiles front (.sequenceHeader own) payload
  | frameHeader {frame : FrameHeader} {payload : Bytes} :
      Replaces grid sequence tiles front (.frameHeader frame) payload
  /-- All tiles of the frame, each with what is recorded for the tile groups of the frame. -/
  | lastGroup {before between : List ParsedObu} {frame : FrameHeader} {known : SequenceHeader}
      {own chosen : TileLayout} {group found : TileGroup} {payload : Bytes}
      (opened : Opened front before between frame own) (last : group.endsFrame own = true)
      (present : sequence = some known) (layout : grid.layoutFor frame known = .ok chosen)
      (parsed : TileGroup.parse payload chosen = .ok found)
      (indices : found.tiles.map TileSpan.tile = List.range tiles.length)
      (bytes : found.tileBytes payload =
        tiles.map fun slot => slot.recorded (groupCount before) (groupCount between + 1)) :
      Replaces grid sequence tiles front (.tileGroup group) payload

/-- Nothing is written for an OBU behind those of `front`. -/
inductive Dropped (front : List ParsedObu) : ParsedObu → Prop
  | group {before between : List ParsedObu} {frame : FrameHeader} {own : TileLayout}
      {group : TileGroup} {obu : Obu} (opened : Opened front before between frame own)
      (more : group.endsFrame own = false) : Dropped front ⟨obu, .tileGroup group⟩
  | frameHeaderCopy {obu : Obu} : Dropped front ⟨obu, .frameHeaderCopy⟩
  | frame {frame : FrameHeader} {obu : Obu} : Dropped front ⟨obu, .frame frame⟩
  | metadata {obu : Obu} (type : obu.header.type = .metadata) : Dropped front ⟨obu, .other⟩

/-- An OBU has the type and the layers of another one, and its size is in the shortest code. -/
structure Recoded (original written : Obu) : Prop where
  type : written.header.type = original.header.type
  extension : written.header.extension = original.header.extension
  size : written.header.size = some written.payload.length
  shortest : ∀ (code : Bytes) (rest : Bits),
    Leb128.read (.ofBytes code) = .ok written.payload.length ⟨8 * code.length, rest⟩ →
      written.headerSize ≤ written.header.fixedSize + code.length

/-- The OBUs that are written for those of a unit behind `front`, in the same order. -/
inductive Repacked (grid : TileGrid) (sequence : Option SequenceHeader) (tiles : List TileSlot) :
    (front unit : List ParsedObu) → List Obu → Prop
  | nil {front : List ParsedObu} : Repacked grid sequence tiles front [] []
  | written {front unit : List ParsedObu} {written : List Obu} {parsed : ParsedObu} {obu : Obu}
      (replaces : Replaces grid sequence tiles front parsed.content obu.payload)
      (recoded : Recoded parsed.obu obu)
      (behind : Repacked grid sequence tiles (front ++ [parsed]) unit written) :
      Repacked grid sequence tiles front (parsed :: unit) (obu :: written)
  | dropped {front unit : List ParsedObu} {written : List Obu} {parsed : ParsedObu}
      (dropped : Dropped front parsed)
      (behind : Repacked grid sequence tiles (front ++ [parsed]) unit written) :
      Repacked grid sequence tiles front (parsed :: unit) written

theorem recoded_placed (obu : Obu) (offset : Nat) (payload : Bytes) :
    Recoded obu (.placed offset obu.header payload) := by
  refine ⟨rfl, rfl, rfl, fun code rest run => ?_⟩
  have short := Leb128.shortest run (Nat.zero_add _).symm
  exact Nat.add_le_add_left short _

namespace Opened

variable {front before between : List ParsedObu} {frame : FrameHeader} {own : TileLayout}
  {parsed : ParsedObu}

/-- The header of a frame opens it. -/
theorem start (front : List ParsedObu) (obu : Obu) (cut : frame.layout = some own) :
    Opened (front ++ [⟨obu, .frameHeader frame⟩]) front [] frame own :=
  ⟨⟨obu, rfl⟩, cut, by rintro _ ⟨⟩, by rintro _ ⟨⟩⟩

/-- What is no frame header and no last tile group leaves a frame open. -/
theorem append (opened : Opened front before between frame own)
    (only : ∀ other, parsed.content ≠ .frameHeader other)
    (more : ∀ group, parsed.content = .tileGroup group → group.endsFrame own = false) :
    Opened (front ++ [parsed]) before (between ++ [parsed]) frame own := by
  obtain ⟨header, rfl⟩ := opened.split
  refine ⟨⟨header, by simp⟩, opened.cut, ?_, ?_⟩
  · intro item member
    rcases List.mem_append.1 member with old | new
    · exact opened.only item old
    · rwa [List.mem_singleton.1 new]
  · intro item member
    rcases List.mem_append.1 member with old | new
    · exact opened.more item old
    · rwa [List.mem_singleton.1 new]

end Opened

theorem groupCount_append (front : List ParsedObu) (parsed : ParsedObu) :
    groupCount (front ++ [parsed]) = groupCount front + if parsed.isGroup then 1 else 0 := by
  rw [groupCount, groupCount, List.countP_append, List.countP_singleton]

theorem Opened.groupCount_eq {front before between : List ParsedObu} {frame : FrameHeader}
    {own : TileLayout} (opened : Opened front before between frame own) :
    groupCount front = groupCount before + groupCount between := by
  obtain ⟨header, rfl⟩ := opened.split
  rw [groupCount, List.countP_append, List.countP_cons_of_neg Bool.false_ne_true]
  rfl

/-- The layout of the frame that is waited for can be expressed. -/
theorem DecoderState.InRange.expressible {state : DecoderState} (inRange : state.InRange)
    {frame : FrameHeader} {layout : TileLayout} (waiting : state.pending = some frame)
    (cut : frame.layout = some layout) : layout.Expressible := by
  obtain ⟨own, found, expressible⟩ := inRange.layout waiting
  rwa [Option.some.inj (cut.symm.trans found)]

/-! ## One OBU -/

namespace Assemble

/-- What is known of a unit that is being written behind the OBUs of `front`. -/
structure Walked (template : Template) (front : List ParsedObu) (pending : Option FrameHeader)
    (assembly : Assembly) : Prop where
  aligned : assembly.writer.pending = []
  tight : assembly.writer.Tight
  groups : assembly.groups = groupCount front
  opened : ∀ frame header, assembly.frame = some frame → pending = some header →
    ∃ before between known, Opened front before between header frame.template ∧
      template.sequence = some known ∧ template.grid.layoutFor header known = .ok frame.layout ∧
      assembly.firstGroup = groupCount before

/-- What has been written for an OBU behind those of `front`. -/
inductive Wrote (template : Template) (front : List ParsedObu) (parsed : ParsedObu)
    (ahead behind : BitWriter) : Prop
  | written {payload : Bytes}
      (replaces : Replaces template.grid template.sequence template.tiles front parsed.content
        payload)
      (small : payload.length ≤ Emit.maxPayload)
      (takes : ahead.Takes (Obu.coded parsed.obu.header payload) behind)
  | dropped (dropped : Dropped front parsed) (same : behind = ahead)

variable {template : Template} {front : List ParsedObu} {obu : Obu} {assembly behind : Assembly}

theorem emit_eq_ok {α : Type} {step : Emit α} {value : α} :
    (liftM step : Assemble α) assembly = .ok value behind ↔
      ∃ writer, step assembly.writer = .ok value writer ∧ behind = { assembly with writer } := by
  simp only [liftM, monadLift, MonadLift.monadLift]
  cases step assembly.writer with
  | error cause writer =>
    constructor
    · rintro ⟨⟩
    · rintro ⟨_, ⟨⟩, -⟩
  | ok found writer =>
    constructor
    · rintro ⟨⟩
      exact ⟨writer, rfl, rfl⟩
    · rintro ⟨_, ⟨⟩, rfl⟩
      rfl

/-- What took the place of an OBU: the content that its step has made up, and what closes it. -/
theorem replace_content {trailing : Bool} {payload : Emit Unit} {adds : Bits → Prop}
    (inRange : obu.header.InRange) (grows : Grows payload adds) (tight : assembly.writer.Tight)
    (run : replace obu trailing payload assembly = .ok () behind) :
    ∃ writer data, behind = { assembly with writer } ∧ writer.Tight ∧
      data.length ≤ Emit.maxPayload ∧ assembly.writer.Takes (Obu.coded obu.header data) writer ∧
      ∃ content rest, adds content ∧ (trailing = false → rest = []) ∧
        Bits.ofBytes data = content ++ rest := by
  obtain ⟨count, between, first, run⟩ := Step.bind_eq_ok.1 run
  cases run
  obtain ⟨writer, emitted, rfl⟩ := emit_eq_ok.1 first
  obtain ⟨data, made, small, takes, tight⟩ :=
    Emit.obu_written inRange (Emit.closed_grows grows trailing) tight emitted
  exact ⟨writer, data, rfl, tight, small, takes, made⟩

theorem replace_written {trailing : Bool} {payload : Emit Unit} {adds : Bits → Prop}
    (inRange : obu.header.InRange) (grows : Grows payload adds) (tight : assembly.writer.Tight)
    (run : replace obu trailing payload assembly = .ok () behind) :
    ∃ writer data, behind = { assembly with writer } ∧ writer.Tight ∧
      data.length ≤ Emit.maxPayload ∧ assembly.writer.Takes (Obu.coded obu.header data) writer ∧
      (trailing = false → adds (Bits.ofBytes data)) := by
  obtain ⟨writer, data, same, tight, small, takes, content, rest, added, plain, bits⟩ :=
    replace_content inRange grows tight run
  refine ⟨writer, data, same, tight, small, takes, fun open_ => ?_⟩
  rwa [bits, plain open_, List.append_nil]

/-- Nothing has been written yet. -/
theorem Walked.start (template : Template) (capacity : Nat) (pending : Option FrameHeader) :
    Walked template [] pending ⟨.empty capacity, none, 0, 0⟩ :=
  ⟨rfl, BitWriter.tight_empty capacity, rfl, by rintro _ _ ⟨⟩⟩

/-- A step that only writes something in the place of an OBU leaves frames and groups alone. -/
theorem Walked.writes {pending after : Option FrameHeader} {parsed : ParsedObu}
    {writer : BitWriter} {data : Bytes} (walked : Walked template front pending assembly)
    (takes : assembly.writer.Takes data writer) (tight : writer.Tight)
    (alone : parsed.isGroup = false)
    (kept : ∀ header, after = some header →
      pending = some header ∧ ∀ other, parsed.content ≠ .frameHeader other) :
    Walked template (front ++ [parsed]) after { assembly with writer } := by
  refine ⟨takes.aligned, tight, ?_, fun frame header open_ waiting => ?_⟩
  · rw [groupCount_append, alone, walked.groups]
    rfl
  · obtain ⟨waited, only⟩ := kept header waiting
    obtain ⟨before, between, known, opened, rest⟩ := walked.opened frame header open_ waited
    refine ⟨before, _, known, opened.append only fun group same => ?_, rest⟩
    rw [ParsedObu.isGroup, same] at alone
    cases alone

theorem Walked.passes {pending after : Option FrameHeader} {parsed : ParsedObu}
    (walked : Walked template front pending assembly) (alone : parsed.isGroup = false)
    (kept : ∀ header, after = some header →
      pending = some header ∧ ∀ other, parsed.content ≠ .frameHeader other) :
    Walked template (front ++ [parsed]) after assembly :=
  walked.writes (.refl walked.aligned) walked.tight alone kept

variable {state after : DecoderState}

theorem sequenceHeader_grows (own : SequenceHeader) (payload : Bytes) (width height : Nat) :
    Grows (do let _ ← own.writeWithDimensions payload width height : Emit Unit) Any :=
  (own.writeWithDimensions_grows payload width height).emit.bind_any fun _ => .pure _

theorem sequenceHeader_step {own : SequenceHeader}
    (walked : Walked template front state.pending assembly) (inRange : obu.header.InRange)
    (run : sequenceHeader template obu own assembly = .ok () behind) :
    Walked template (front ++ [⟨obu, .sequenceHeader own⟩]) state.pending behind ∧
      Wrote template front ⟨obu, .sequenceHeader own⟩ assembly.writer behind.writer := by
  obtain ⟨writer, data, rfl, tight, small, takes, -⟩ :=
    replace_written inRange (sequenceHeader_grows _ _ _ _) walked.tight run
  exact ⟨walked.writes takes tight rfl fun header waiting => ⟨waiting, by rintro _ ⟨⟩⟩,
    .written .sequenceHeader small takes⟩

theorem existingFrame_grows (payload : Bytes) :
    Grows (do
      let stop ← TrailingBit.position payload
      Write.copy payload 0 stop : Emit Unit) Any :=
  .bind_any (.stays fun _ _ _ run => (Emit.lift_eq_ok.1 run).2) fun _ => (copy_grows _ _ _).emit

theorem existingFrame_step {frame : FrameHeader}
    (walked : Walked template front state.pending assembly) (inRange : obu.header.InRange)
    (idle : state.pending = none) (run : existingFrame obu assembly = .ok () behind) :
    Walked template (front ++ [⟨obu, .frameHeader frame⟩]) state.pending behind ∧
      Wrote template front ⟨obu, .frameHeader frame⟩ assembly.writer behind.writer := by
  obtain ⟨writer, data, rfl, tight, small, takes, -⟩ :=
    replace_written inRange (existingFrame_grows _) walked.tight run
  refine ⟨walked.writes takes tight rfl fun header waiting => ?_, .written .frameHeader small takes⟩
  rw [idle] at waiting
  cases waiting

/-- The header of a frame is rewritten, and its tile groups are the next ones. -/
theorem frameHeader_inv {frame : FrameHeader}
    (run : frameHeader template obu frame assembly = .ok () behind) :
    ∃ known chosen between, template.sequence = some known ∧
      template.grid.layoutFor frame known = .ok chosen ∧
      replace obu true (frame.writeRewritten obu.payload template.target chosen) assembly =
        .ok () between ∧
      behind = { between with
        frame := frame.layout.map fun own => { template := own, layout := chosen }
        firstGroup := between.groups } := by
  rw [frameHeader] at run
  cases present : template.sequence with
  | none =>
    rw [present] at run
    cases run
  | some known =>
    simp only [present] at run
    cases layout : template.grid.layoutFor frame known with
    | error cause =>
      rw [layout] at run
      cases run
    | ok chosen =>
      rw [layout] at run
      obtain ⟨_, _, first, run⟩ := Step.bind_eq_ok.1 run
      cases first
      obtain ⟨_, between, second, run⟩ := Step.bind_eq_ok.1 run
      cases run
      exact ⟨known, chosen, between, rfl, layout, second, rfl⟩

theorem frameHeader_step {frame : FrameHeader}
    (walked : Walked template front state.pending assembly) (inRange : obu.header.InRange)
    (run : frameHeader template obu frame assembly = .ok () behind) :
    Walked template (front ++ [⟨obu, .frameHeader frame⟩]) (some frame) behind ∧
      Wrote template front ⟨obu, .frameHeader frame⟩ assembly.writer behind.writer := by
  obtain ⟨known, chosen, between, present, layout, replaced, rfl⟩ := frameHeader_inv run
  obtain ⟨writer, data, rfl, tight, small, takes, -⟩ :=
    replace_written inRange (frame.writeRewritten_grows _ _ _) walked.tight replaced
  refine ⟨⟨takes.aligned, tight, ?_, ?_⟩, .written .frameHeader small takes⟩
  · rw [groupCount_append, ← walked.groups]
    rfl
  · rintro open_ header found ⟨⟩
    obtain ⟨own, cut, rfl⟩ := Option.map_eq_some_iff.1 found
    exact ⟨front, [], known, .start front obu cut, present, layout, walked.groups⟩

/-- With the last group of a frame one group with all its tiles is written. -/
theorem tileGroup_writes {frame : OpenFrame} {group : TileGroup} {writer : BitWriter}
    {firstGroup groups : Nat} {tiles : List Bytes} (last : group.endsFrame frame.template = true)
    (come : template.tiles.map (fun slot =>
      slot.info.tileData slot.unit firstGroup (groups + 1)) = tiles)
    (inRange : obu.header.InRange) (tight : writer.Tight)
    (run : tileGroup template obu group ⟨writer, some frame, firstGroup, groups⟩ =
      .ok () behind) :
    ∃ after, behind = ⟨after, none, firstGroup, groups + 1⟩ ∧ after.Tight ∧
      (TileGroup.coded frame.layout tiles).length ≤ Emit.maxPayload ∧
      writer.Takes (Obu.coded obu.header (TileGroup.coded frame.layout tiles)) after ∧
      tiles.length = frame.layout.tileCount ∧
      TileGroup.Sized frame.layout.tileSizeBytes tiles := by
  rw [tileGroup, Step.bind_of_ok (Step.modify_eq _ _), Step.get_bind] at run
  simp only [last, if_true, come] at run
  obtain ⟨_, _, first, run⟩ := Step.bind_eq_ok.1 run
  have ready : (⟨writer, some frame, firstGroup, groups + 1⟩ : Assembly).writer.Tight := tight
  obtain ⟨after, data, rfl, tight, small, takes, all⟩ :=
    replace_written inRange (TileGroup.writeAll_grows _ _).emit ready first
  cases run
  obtain rfl := (all rfl).eq_coded
  exact ⟨after, rfl, tight, small, takes, (all rfl).all, (all rfl).sized⟩

theorem tileGroup_step {header : FrameHeader} {layout : TileLayout} {group : TileGroup}
    (walked : Walked template front (some header) assembly) (inRange : obu.header.InRange)
    (cut : header.layout = some layout) (expressible : layout.Expressible)
    (nonempty : template.tiles ≠ []) (run : tileGroup template obu group assembly = .ok () behind) :
    Walked template (front ++ [⟨obu, .tileGroup group⟩])
        (if group.endsFrame layout then none else some header) behind ∧
      Wrote template front ⟨obu, .tileGroup group⟩ assembly.writer behind.writer := by
  obtain ⟨ahead, open_, firstGroup, groups⟩ := assembly
  cases open_ with
  | none =>
    rw [tileGroup, Step.bind_of_ok (Step.modify_eq _ _), Step.get_bind] at run
    cases run
  | some frame =>
    obtain ⟨before, between, known, opened, present, found, start⟩ :=
      walked.opened frame header rfl rfl
    obtain rfl : frame.template = layout := Option.some.inj (opened.cut.symm.trans cut)
    have counted : groups = groupCount front := walked.groups
    by_cases last : group.endsFrame frame.template = true
    · rw [if_pos last]
      obtain ⟨writer, rfl, tight, small, takes, all, sized⟩ :=
        tileGroup_writes last rfl inRange walked.tight run
      obtain ⟨-, chosen, -⟩ := TileGrid.layoutFor_sound found fun _ same => by
        rwa [← Option.some.inj (cut.symm.trans same)]
      obtain ⟨parsed, success, indices, bytes⟩ := TileGroup.parse_coded chosen.tileSizeBytes
        all (by simpa using nonempty) sized
      refine ⟨⟨takes.aligned, tight, ?_, by rintro _ _ ⟨⟩⟩,
        .written (.lastGroup opened last present found success ?_ ?_) small takes⟩
      · rw [groupCount_append, ← counted]
        rfl
      · rw [indices, ← all, List.length_map]
      · rw [bytes]
        refine List.map_congr_left fun slot _ => ?_
        simp only at start
        rw [counted, start, opened.groupCount_eq, TileSlot.recorded, TileInfo.tileData,
          Nat.add_assoc, Nat.add_sub_cancel_left]
    · have more : group.endsFrame frame.template = false := by simpa using last
      rw [if_neg last]
      rw [tileGroup_counts template obu rfl more] at run
      cases run
      refine ⟨⟨walked.aligned, walked.tight, ?_, ?_⟩, .dropped (.group opened more) rfl⟩
      · rw [groupCount_append, ← counted]
        rfl
      · rintro _ _ ⟨⟩ ⟨⟩
        refine ⟨before, _, known, opened.append (by rintro _ ⟨⟩) ?_, present, found, start⟩
        rintro _ ⟨⟩
        exact more

/-- One OBU of the unit. -/
theorem obu_step {parsed : ParsedObu} (walked : Walked template front state.pending assembly)
    (header : parsed.obu.header.InRange) (inRange : state.InRange) (nonempty : template.tiles ≠ [])
    (outcome : Decode.Outcome state parsed.obu parsed.content after)
    (run : Assemble.obu template parsed assembly = .ok () behind) :
    Walked template (front ++ [parsed]) after.pending behind ∧
      Wrote template front parsed assembly.writer behind.writer := by
  obtain ⟨obu, content⟩ := parsed
  cases outcome with
  | temporalDelimiter =>
    obtain ⟨writer, data, rfl, tight, small, takes, empty⟩ :=
      replace_written header (.pure ()) walked.tight run
    obtain rfl : data = [] := Bits.ofBytes_injective (empty rfl)
    exact ⟨walked.writes takes tight rfl (by rintro _ ⟨⟩), .written .temporalDelimiter small takes⟩
  | sequenceHeader => exact sequenceHeader_step walked header run
  | frameHeaderCopy =>
    cases run
    exact ⟨walked.passes rfl fun _ waiting => ⟨waiting, by rintro _ ⟨⟩⟩,
      .dropped .frameHeaderCopy rfl⟩
  | existingFrame type idle present parsed shown =>
    simp only [Assemble.obu, shown, if_true] at run
    exact existingFrame_step walked header idle run
  | frameHeader type idle present parsed own =>
    simp only [Assemble.obu, own, Bool.false_eq_true, if_false] at run
    exact frameHeader_step walked header run
  | tileGroup type waiting cut parsed more =>
    rw [waiting] at walked
    have expressible := inRange.expressible waiting cut
    have step := tileGroup_step walked header cut expressible nonempty run
    rwa [more, if_neg Bool.false_ne_true, ← waiting] at step
  | lastTileGroup type waiting cut parsed last =>
    rw [waiting] at walked
    have expressible := inRange.expressible waiting cut
    have step := tileGroup_step walked header cut expressible nonempty run
    rwa [last, if_pos rfl] at step
  | frame =>
    cases run
    exact ⟨walked.passes rfl (by rintro _ ⟨⟩), .dropped .frame rfl⟩
  | other =>
    by_cases metadata : obu.header.type = .metadata
    · simp only [Assemble.obu, metadata, if_true] at run
      cases run
      exact ⟨walked.passes rfl fun _ waiting => ⟨waiting, by rintro _ ⟨⟩⟩,
        .dropped (.metadata metadata) rfl⟩
    · simp only [Assemble.obu, metadata, if_false] at run
      cases run

/-! ## A whole unit -/

/-- The types that have a meaning are read as they were written. -/
theorem Wrote.writable {parsed : ParsedObu} {payload : Bytes} (header : parsed.obu.header.InRange)
    (outcome : Decode.Outcome state parsed.obu parsed.content after)
    (replaces : Replaces template.grid template.sequence template.tiles front parsed.content
      payload)
    (small : payload.length ≤ Emit.maxPayload) : Obu.Writable parsed.obu.header payload := by
  refine ⟨header, ?_, small⟩
  obtain ⟨obu, content⟩ := parsed
  cases outcome with
  | temporalDelimiter type => rw [type]; rfl
  | sequenceHeader type => rw [type]; rfl
  | existingFrame type => rcases type with type | type <;> rw [type] <;> rfl
  | frameHeader type => rcases type with type | type <;> rw [type] <;> rfl
  | tileGroup type => rw [type]; rfl
  | lastTileGroup type => rw [type]; rfl
  | frameHeaderCopy => cases replaces
  | frame => cases replaces
  | other => cases replaces

/-- What is written for the OBUs of a unit, one after the other. -/
theorem obus_run {unit : List ParsedObu}
    (interprets : Decode.Interprets state unit after)
    (walked : Walked template front state.pending assembly)
    (headers : ∀ parsed ∈ unit, parsed.obu.header.InRange) (inRange : state.InRange)
    (nonempty : template.tiles ≠ [])
    (run : unit.forM (Assemble.obu template) assembly = .ok () behind) :
    Walked template (front ++ unit) after.pending behind ∧ ∃ items : List (ObuHeader × Bytes),
      (∀ item ∈ items, Obu.Writable item.1 item.2) ∧
      assembly.writer.Takes (Obu.rowBytes items) behind.writer ∧
      ∀ offset, Repacked template.grid template.sequence template.tiles front unit
        (Obu.row offset items) := by
  induction interprets generalizing front assembly with
  | nil =>
    cases run
    rw [List.append_nil]
    exact ⟨walked, [], by rintro _ ⟨⟩, .refl walked.aligned, fun _ => .nil⟩
  | @cons state between after parsed rest interpreted later ih =>
    obtain ⟨header, headers⟩ := List.forall_mem_cons.1 headers
    obtain ⟨_, middle, first, run⟩ := Step.bind_eq_ok.1 run
    have outcome := Decode.interpret_outcome interpreted
    obtain ⟨walked, wrote⟩ := obu_step walked header inRange nonempty outcome first
    obtain ⟨walked, items, writable, takes, repacked⟩ :=
      ih walked headers ((Decode.interpret_safe _).of_ok inRange interpreted).2 run
    rw [List.append_assoc] at walked
    cases wrote with
    | written replaces small taken =>
      refine ⟨walked, (parsed.obu.header, _) :: items, ?_, taken.trans takes, fun offset => ?_⟩
      · exact List.forall_mem_cons.2 ⟨Wrote.writable header outcome replaces small, writable⟩
      · exact .written replaces (recoded_placed _ _ _) (repacked _)
    | dropped dropped same =>
      rw [same] at takes
      exact ⟨walked, items, writable, takes, fun offset => .dropped dropped (repacked offset)⟩

/-- A unit is what writing its OBUs has made up, and fits. -/
theorem unit_inv {parsed : List ParsedObu} {capacity : Nat} {data : Bytes}
    (run : unit template parsed capacity = .ok data) :
    ∃ behind, parsed.forM (Assemble.obu template) ⟨.empty capacity, none, 0, 0⟩ =
        .ok () behind ∧
      ∀ bytes, behind.writer.Tight → (BitWriter.empty capacity).Takes bytes behind.writer →
        data = bytes ∧ data.length ≤ capacity := by
  rw [unit] at run
  split at run
  next found last success =>
    cases run
    obtain ⟨_, behind, first, second⟩ := Step.bind_eq_ok.1 success
    refine ⟨behind, first, fun bytes tight takes => ?_⟩
    have whole : behind.writer.bits.length % 8 = 0 := by
      rw [bits_of_aligned takes.aligned, Bits.length_ofBytes]
      omega
    obtain ⟨finished, -⟩ := Emit.finish_of_whole tight.pending whole
    obtain ⟨writer, finish, rfl⟩ := emit_eq_ok.1 second
    obtain ⟨rfl, rfl⟩ := EStateM.Result.ok.inj (finished.symm.trans finish)
    have contents : behind.writer.contents = bytes := takes.contents
    have size : behind.writer.contents.length = behind.writer.buffer.size :=
      BoundedBuffer.length_contents _
    have room := tight.size
    rw [takes.capacity] at room
    exact ⟨contents, size ▸ room⟩
  next => cases run

/-- A unit that was written fits, and is read as the OBUs that stand for those of the template. -/
theorem unit_written {parsed : List ParsedObu} {capacity : Nat} {data : Bytes}
    (interprets : Decode.Interprets state parsed after)
    (headers : ∀ item ∈ parsed, item.obu.header.InRange) (inRange : state.InRange)
    (nonempty : template.tiles ≠ []) (run : unit template parsed capacity = .ok data) :
    data.length ≤ capacity ∧ (Obu.readAll data).2.remaining = 0 ∧
      ∃ written, (Obu.readAll data).1 = written.map .ok ∧
        Repacked template.grid template.sequence template.tiles [] parsed written := by
  obtain ⟨behind, written, ends⟩ := unit_inv run
  obtain ⟨walked, items, writable, takes, repacked⟩ :=
    obus_run interprets (.start template capacity state.pending) headers inRange nonempty written
  obtain ⟨rfl, room⟩ := ends _ walked.tight takes
  obtain ⟨read, remaining⟩ := Obu.readAll_row writable
  exact ⟨room, remaining, Obu.row 0 items, read, repacked 0⟩

end Assemble

/-! ## The output of a repacker -/

/-- An OBU has the type of tile groups exactly where it holds one. -/
theorem Decode.Outcome.isGroup {state after : DecoderState} {obu : Obu} {content : ObuContent}
    (outcome : Outcome state obu content after) :
    (obu.header.type == .tileGroup) = ParsedObu.isGroup ⟨obu, content⟩ := by
  rw [Bool.eq_iff_iff, beq_iff_eq, outcome.type_eq_iff, ParsedObu.isGroup]
  cases content <;> simp

theorem Decode.Interprets.countP_type {state after : DecoderState} {parsed : List ParsedObu}
    (interprets : Decode.Interprets state parsed after) :
    (parsed.map ParsedObu.obu).countP (·.header.type == .tileGroup) = groupCount parsed := by
  induction interprets with
  | nil => rfl
  | cons run later ih =>
    rw [List.map_cons, List.countP_cons, ih, (interpret_outcome run).isGroup, groupCount,
      groupCount, List.countP_cons]

/-- A unit leaves a decoder in range, whether it can be parsed or not. -/
theorem DecoderState.InRange.behind {state : DecoderState} (inRange : state.InRange)
    (unit : Bytes) : (state.behind unit).InRange := by
  rw [DecoderState.behind]
  split
  next parsed after run => exact ((Decode.parseUnit_safe unit).of_ok inRange run).2
  next => exact inRange

namespace TileRepacker

open Repack

variable {repacker next : TileRepacker} {out : Packet}

/-- What the tiles must have in common to be put together, and when another sequence header is
    written for them. -/
theorem templateFor_sound {sequence : Option SequenceHeader} {tiles : List TileSlot}
    {first : TileSlot} {parsed : List ParsedObu} {template : Template}
    (success : templateFor sequence tiles first parsed = .ok template) :
    TileGrid.collect first.info.geometry (tiles.map (·.info.geometry)) = .ok template.grid ∧
      template.sequence = sequence ∧ template.tiles = tiles ∧
      (∀ slot ∈ tiles, slot.info.groups.length =
        (parsed.map ParsedObu.obu).countP (·.header.type == .tileGroup)) ∧
      ∀ own, sequence = some own →
        if template.grid.matchesFrameSize parsed own then template.target = none
        else ∃ target, template.target = some target ∧
          own.withDimensions template.grid.geometry.width template.grid.geometry.height =
            .ok target := by
  obtain ⟨grid, collected, success⟩ := Checked.bind_eq_ok.1 success
  cases described : first.info.describes (parsed.map ParsedObu.obu) with
  | false =>
    simp only [described, Bool.false_eq_true, if_false] at success
    cases success
  | true =>
    simp only [described, if_true, pure_bind] at success
    cases other : tiles.findIdx? (·.info.groups.length !=
        (parsed.map ParsedObu.obu).countP (·.header.type == .tileGroup)) with
    | some index =>
      simp only [other] at success
      cases success
    | none =>
      simp only [other] at success
      have counted : ∀ slot ∈ tiles, slot.info.groups.length =
          (parsed.map ParsedObu.obu).countP (·.header.type == .tileGroup) := fun slot member => by
        simpa using List.findIdx?_eq_none_iff.1 other slot member
      cases sequence with
      | none =>
        cases success
        exact ⟨collected, rfl, rfl, counted, by rintro _ ⟨⟩⟩
      | some own =>
        by_cases same : grid.matchesFrameSize parsed own = true
        · simp only [same, if_true] at success
          cases success
          refine ⟨collected, rfl, rfl, counted, ?_⟩
          rintro _ ⟨⟩
          rw [if_pos same]
        · simp only [same] at success
          cases resized : own.withDimensions grid.geometry.width grid.geometry.height with
          | error cause =>
            simp only [resized] at success
            cases success
          | ok target =>
            simp only [resized] at success
            cases success
            refine ⟨collected, rfl, rfl, counted, ?_⟩
            rintro _ ⟨⟩
            rw [if_neg same]
            exact ⟨target, rfl, resized⟩

/-- What an output was written from. -/
theorem completed_eq_ok {first : TileSlot} {rest : List TileSlot}
    (waiting : repacker.waiting = first :: rest)
    (run : repacker.completed = (.ok (some out), next)) :
    ∃ parsed template,
      Decode.parseUnit first.unit repacker.decoder = .ok parsed next.decoder ∧
      templateFor next.decoder.sequence (first :: rest) first parsed = .ok template ∧
      Assemble.unit template parsed repacker.config.maxOutputSize = .ok out.data := by
  cases parsed : Decode.parseUnit first.unit repacker.decoder with
  | error cause failed =>
    rw [completed_of_unparsed waiting parsed] at run
    cases run
  | ok items behind =>
    have merged : merge (first :: rest) first repacker.clear = _ := merge_of_parsed parsed
    have config : repacker.clear.config = repacker.config := rfl
    simp only [completed, waiting, merged, config] at run
    cases data : written behind.sequence (first :: rest) first items
        repacker.config.maxOutputSize with
    | error cause =>
      rw [data] at run
      cases cause <;> cases run
    | ok bytes =>
      rw [data] at run
      cases run
      obtain ⟨template, made, unit⟩ := Checked.bind_eq_ok.1 data
      exact ⟨items, template, rfl, made, unit⟩

/-- A packet leaves the decoder alone or puts it behind a unit. -/
theorem decoder_filter (repacker : TileRepacker) (packet : Packet) :
    (repacker.filter packet).2.decoder = repacker.decoder ∨
      ∃ unit, (repacker.filter packet).2.decoder = repacker.decoder.behind unit := by
  cases fits : slotFor repacker packet with
  | error cause =>
    rw [filter_of_refused fits]
    cases waiting : repacker.waiting with
    | nil => exact .inl (by rw [abort_of_empty waiting]; rfl)
    | cons first rest => exact .inr ⟨first.unit, by rw [abort_of_waiting waiting]; rfl⟩
  | ok place =>
    rw [filter_of_slot fits]
    split_ifs
    · exact .inl rfl
    · generalize full : repacker.taking place.1 place.2 = taken
      have same : taken.decoder = repacker.decoder := by
        rw [← full]
        rfl
      cases waiting : taken.waiting with
      | nil => exact .inl (by simp only [completed, waiting, clear, same])
      | cons first rest =>
        rcases completed_settles waiting with ⟨data, run⟩ | ⟨cause, run⟩ <;>
          exact .inr ⟨first.unit, by rw [run, ← same]; rfl⟩

/-- Whatever a repacker was fed, its decoder is in range. -/
theorem Ran.inRange {config : RepackConfig} {events : List Event}
    (ran : Ran config events repacker) : repacker.decoder.InRange := by
  induction ran with
  | opened success =>
    obtain ⟨-, rfl⟩ := eq_of_ofConfig success
    exact DecoderState.empty_inRange
  | reset => exact DecoderState.empty_inRange
  | @filter events repacker packet ran _ ih =>
    rcases repacker.decoder_filter packet with same | ⟨unit, same⟩
    · exact same ▸ ih
    · exact same ▸ ih.behind unit

/-- What an output was written from: the tiles that were fed since the last unit, lined up, the unit
    of the first of them as the decoder finds it, and what they have in common. -/
theorem Ran.output_assembled {config : RepackConfig} {events : List Event} {packet : Packet}
    (ran : Ran config events repacker) (run : repacker.filter packet = (.ok (some out), next)) :
    ∃ first rest parsed template,
      Lined config.tileCount (packet :: taken events) (first :: rest) ∧
      Decode.parseUnit first.unit repacker.decoder = .ok parsed next.decoder ∧
      templateFor next.decoder.sequence (first :: rest) first parsed = .ok template ∧
      Assemble.unit template parsed config.maxOutputSize = .ok out.data := by
  obtain ⟨rfl, waits⟩ := ran.waits
  have whole := (waits.output run).1
  obtain ⟨full, filtered, same, lined⟩ := waits.filter_whole whole
  obtain ⟨first, rest, _, -, own, -⟩ := lined.first waits.positive
  rw [own] at lined
  obtain ⟨parsed, template, unit, made, data⟩ := completed_eq_ok own (filtered.symm.trans run)
  have decoder : full.decoder = repacker.decoder := (congrArg TileRepacker.decoder same :)
  have config : full.config = repacker.config := (congrArg TileRepacker.config same :)
  rw [decoder] at unit
  rw [config] at data
  exact ⟨first, rest, parsed, template, lined, unit, made, data⟩

/-- An output fits and is read without an error. It is made of the OBUs of the unit of tile 0: each
    temporal delimiter, sequence header and frame header stands for one of the unit, and each tile
    group for the last one of a frame, with all tiles of the frame as they were recorded. -/
theorem Ran.output_repacked {config : RepackConfig} {events : List Event} {packet : Packet}
    (ran : Ran config events repacker) (run : repacker.filter packet = (.ok (some out), next)) :
    out.data.length ≤ config.maxOutputSize ∧ (Obu.readAll out.data).2.remaining = 0 ∧
      ∃ first rest parsed grid written,
        Lined config.tileCount (packet :: taken events) (first :: rest) ∧
        Decode.parseUnit first.unit repacker.decoder = .ok parsed next.decoder ∧
        TileGrid.collect first.info.geometry
          ((first :: rest).map (·.info.geometry)) = .ok grid ∧
        (∀ slot ∈ first :: rest, slot.info.groups.length = groupCount parsed) ∧
        (Obu.readAll out.data).1 = written.map .ok ∧
        Repacked grid next.decoder.sequence (first :: rest) [] parsed written := by
  obtain ⟨first, rest, parsed, template, lined, unit, made, data⟩ := ran.output_assembled run
  obtain ⟨collected, sequence, tiles, counted, -⟩ := templateFor_sound made
  obtain ⟨within, interprets⟩ := Decode.parseUnit_interprets unit
  rw [interprets.countP_type] at counted
  obtain ⟨room, ends, written, read, repacked⟩ := Assemble.unit_written interprets
    (fun item member => (within item member).header) ran.inRange
    (tiles ▸ List.cons_ne_nil first rest) data
  rw [sequence, tiles] at repacked
  exact ⟨room, ends, first, rest, parsed, template.grid, written, lined, unit, collected, counted,
    read, repacked⟩

/-- The two tiles of a key frame, the second one first. -/
theorem Ran.output_repacked_two_tiles :
    ∃ start one two repacker out next first rest parsed grid written,
      ofConfig ⟨2, 64⟩ = .ok start ∧
      [one, two] = (TileSplitter.filter ⟨.default, .empty, none⟩
        ⟨[0x12, 0x00, 0x0A, 0x06, 0x18, 0x19, 0xBF, 0xFF, 0x00, 0x02, 0x1A, 0x02, 0x18, 0x40,
          0x22, 0x05, 0x00, 0x01, 0xAA, 0xAB, 0xBB], some 7, none, 1, 0, none⟩).1 ∧
      start.filter two = (.ok none, repacker) ∧ repacker.filter one = (.ok (some out), next) ∧
      out.data.length ≤ 64 ∧ (Obu.readAll out.data).2.remaining = 0 ∧
      Lined 2 [one, two] (first :: rest) ∧
      Decode.parseUnit first.unit repacker.decoder = .ok parsed next.decoder ∧
      TileGrid.collect first.info.geometry
        ((first :: rest).map (·.info.geometry)) = .ok grid ∧
      (∀ slot ∈ first :: rest, slot.info.groups.length = groupCount parsed) ∧
      (Obu.readAll out.data).1 = written.map .ok ∧
      Repacked grid next.decoder.sequence (first :: rest) [] parsed written := by
  generalize split : (TileSplitter.filter ⟨.default, .empty, none⟩ _).1 = packets
  obtain ⟨one, two, rfl⟩ : ∃ one two, packets = [one, two] := List.length_eq_two.1 (by
    rw [← split]
    decide +kernel)
  obtain ⟨start, success, answers⟩ : ∃ start, ofConfig ⟨2, 64⟩ = .ok start ∧
      (start.filterAll [two, one]).1.map (·.toOption.map Option.isSome) =
        [some false, some true] := by
    have reversed : [two, one] = [one, two].reverse := rfl
    refine ⟨_, rfl, ?_⟩
    rw [reversed, ← split]
    decide +kernel
  cases both : start.filterAll [two, one] with
  | mk given last =>
    rw [both] at answers
    obtain ⟨answer, others, rfl, waits, answers⟩ := List.map_eq_cons_iff.1 answers
    obtain ⟨final, none, rfl, comes, nothing⟩ := List.map_eq_cons_iff.1 answers
    obtain rfl := List.map_eq_nil_iff.1 nothing
    rcases answer with cause | none | packet <;> cases waits
    rcases final with cause | none | out <;> cases comes
    obtain ⟨repacker, earlier, both⟩ := filterAll_eq_cons (.ok none) both
    obtain ⟨next, run, -⟩ := filterAll_eq_cons (.ok (some out)) both
    have ran := (Ran.opened success).filter two (earlier ▸ .ok none)
    rw [earlier] at ran
    obtain ⟨room, ends, first, rest, parsed, grid, written, lined, found⟩ :=
      ran.output_repacked run
    exact ⟨start, one, two, repacker, out, next, first, rest, parsed, grid, written, success,
      rfl, earlier, run, room, ends, lined, found⟩

end TileRepacker

end Av1Tiling
