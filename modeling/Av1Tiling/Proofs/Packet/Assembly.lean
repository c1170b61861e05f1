import Av1Tiling.Proofs.Frame.Rewriting
import Av1Tiling.Proofs.Packet.Splitter
import Av1Tiling.Proofs.Sequence.Rewriting

/-!
# Writing whole frames

A unit is written part by part from its parts and the tiles that have come: an OBU that stands for
itself as it was, and a frame as its header and one group with all its tiles.
-/

namespace Av1Tiling

/-- A step that writes the content of a closed payload writes the payload, once it is closed. -/
theorem Closed.puts {data : Bytes} {count : Nat} (closed : Closed data count) (step : Emit Unit)
    (appends : ∀ stop, TrailingBit.position data = .ok stop → count ≤ stop →
      Write.Appends step ((⟨0, stop⟩ : BitSpan).of data) ()) :
    Write.Puts 0 (Emit.closed true step) data () := by
  obtain ⟨stop, found, inside, short⟩ := closed
  obtain ⟨content, zeros, length, bits⟩ :=
    TrailingBit.lastOne_eq_some_iff.1 (TrailingBit.position_eq_ok.1 found)
  have written := appends stop found inside
  have front := of_front bits
  rw [length] at front
  rw [front] at written
  refine Emit.closed_puts written ?_
  have total := congrArg List.length bits
  rw [Bits.length_ofBytes, List.length_append, List.length_cons, List.length_replicate] at total
  have padding : zeros = (8 - (content.length + 1) % 8) % 8 := by omega
  rw [bits, Emit.closing, Write.padding, padding]

/-- The tile of a packet as it waits for the others. -/
def tileSlot (packet : Packet) (parts : List UnitPart) (geometry : Nat → TileGeometry)
    (tile : Nat) : TileSlot where
  info := tileInfo packet.data parts (geometry tile) tile
  packet := packet.withData packet.data

/-- All tiles have come, and the unit keeps its frame size and the layouts of its frames. -/
structure Template.Fits (template : Template) (count : Nat) (packet : Packet)
    (sequence : Option SequenceHeader) (parts : List UnitPart) : Prop where
  tiles : ∃ geometry, template.tiles = (List.range count).map (tileSlot packet parts geometry)
  known : template.sequence = sequence
  kept : template.target = none ∨
    unitFrames parts = [] ∧ ∀ part ∈ parts, part.isSequence = false
  layout : ∀ whole ∈ unitFrames parts, ∀ own, sequence = some own →
    template.grid.layoutFor whole.frame own = .ok whole.layout

namespace Assemble

/-- Between two bytes, behind `start` tile groups and where there is room, `step` adds just `data`
    and counts `count` tile groups. -/
def Adds (step : Assemble Unit) (start count : Nat) (data : Bytes) : Prop :=
  ∀ assembly : Assembly, assembly.writer.pending = [] → assembly.groups = start →
    assembly.writer.buffer.size + data.length + Emit.reservation ≤
      assembly.writer.buffer.capacity →
    ∃ behind, step assembly = .ok () behind ∧ assembly.writer.Takes data behind.writer ∧
      behind.groups = start + count

theorem Adds.pure (start : Nat) : Adds (pure ()) start 0 [] :=
  fun assembly aligned groups _ => ⟨assembly, rfl, .refl aligned, groups⟩

theorem Adds.bind {step next : Assemble Unit} {start first second : Nat} {data more : Bytes}
    (front : Adds step start first data) (back : Adds next (start + first) second more) :
    Adds (step >>= fun _ => next) start (first + second) (data ++ more) := by
  intro assembly aligned groups fits
  rw [List.length_append] at fits
  obtain ⟨between, run₁, takes₁, groups₁⟩ := front assembly aligned groups (by omega)
  have size := takes₁.size
  have capacity := takes₁.capacity
  obtain ⟨behind, run₂, takes₂, groups₂⟩ := back between takes₁.aligned groups₁ (by omega)
  refine ⟨behind, by rw [Step.bind_of_ok run₁, run₂], takes₁.trans takes₂, ?_⟩
  rw [groups₂, Nat.add_assoc]

/-- An OBU takes the place of one with the same header. -/
theorem replace_run {obu : Obu} (inRange : obu.header.InRange) {trailing : Bool}
    {payload : Emit Unit} {data : Bytes}
    (puts : Write.Puts 0 (Emit.closed trailing payload) data ())
    (small : data.length ≤ Emit.maxPayload) (assembly : Assembly)
    (aligned : assembly.writer.pending = [])
    (fits : assembly.writer.buffer.size + (Obu.coded obu.header data).length + Emit.reservation ≤
      assembly.writer.buffer.capacity) :
    ∃ writer, replace obu trailing payload assembly = .ok () { assembly with writer } ∧
      assembly.writer.Takes (Obu.coded obu.header data) writer := by
  obtain ⟨writer, run, takes⟩ := Emit.obu_puts inRange puts small assembly.writer aligned fits
  refine ⟨writer, ?_, takes⟩
  have lifted : (liftM (Emit.obu obu.header trailing payload) : Assemble Nat) assembly =
      .ok data.length { assembly with writer } := by
    simp only [liftM, monadLift, MonadLift.monadLift, run]
  exact Step.bind_of_ok lifted

theorem replace_adds {obu : Obu} (inRange : obu.header.InRange) {trailing : Bool}
    {payload : Emit Unit} {data : Bytes}
    (puts : Write.Puts 0 (Emit.closed trailing payload) data ())
    (small : data.length ≤ Emit.maxPayload) (start : Nat) :
    Adds (replace obu trailing payload) start 0 (Obu.coded obu.header data) := by
  intro assembly aligned groups fits
  obtain ⟨writer, run, takes⟩ := replace_run inRange puts small assembly aligned fits
  exact ⟨_, run, takes, groups⟩

/-- An OBU that stands for itself is written as it was, unless the frame size of a sequence
    changes. -/
theorem alone_adds {template : Template} {parsed : ParsedObu} {sequence : Option SequenceHeader}
    (plain : Plain parsed) (known : (UnitPart.alone parsed).Known sequence)
    (kept : (UnitPart.alone parsed).isSequence = true → template.target = none)
    (inRange : parsed.obu.header.InRange) (small : parsed.obu.payload.length ≤ Emit.maxPayload)
    (start : Nat) : Adds (obu template parsed) start 0 parsed.obu.bytes := by
  obtain ⟨state, behind, outcome⟩ := known
  cases plain with
  | temporalDelimiter empty =>
    have nothing : Write.Puts 0 (Emit.closed false (pure ())) [] () :=
      (Write.Puts.pure ()).bind (.pure ())
    rw [Obu.bytes, empty]
    exact replace_adds inRange nothing (Nat.zero_le _) start
  | sequenceHeader closed =>
    cases outcome with
    | sequenceHeader type parsed =>
      have same : template.target = none := kept rfl
      refine replace_adds inRange (closed.puts _ fun stop found inside => ?_) small start
      rw [same]
      exact (SequenceHeader.writeWithDimensions_appends parsed found inside).emit.map fun _ => ()
  | existingFrame shown closed =>
    have copied : Adds (existingFrame _) start 0 _ :=
      replace_adds inRange (closed.puts _ fun stop found _ => by
        have bound := TrailingBit.position_lt found
        rw [Emit.lift_bind found]
        exact (Write.copy_appends (Nat.zero_le stop) (Nat.le_of_lt bound)).emit) small start
    rw [obu]
    simp only [shown, if_true]
    exact copied

/-- The header of a frame is written as it was, and its tile groups are waited for. -/
theorem frameHeader_run {template : Template} {whole : WholeFrame} {own : SequenceHeader}
    {count : Nat} (known : whole.Known own) (complete : whole.Complete count)
    (present : template.sequence = some own) (kept : template.target = none)
    (layout : template.grid.layoutFor whole.frame own = .ok whole.layout)
    (inRange : whole.header.header.InRange) (small : whole.header.payload.length ≤ Emit.maxPayload)
    {assembly : Assembly} (aligned : assembly.writer.pending = [])
    (fits : assembly.writer.buffer.size + whole.header.bytes.length + Emit.reservation ≤
      assembly.writer.buffer.capacity) :
    ∃ writer, obu template ⟨whole.header, .frameHeader whole.frame⟩ assembly =
        .ok () ⟨writer, some ⟨whole.layout, whole.layout⟩, assembly.groups, assembly.groups⟩ ∧
      assembly.writer.Takes whole.header.bytes writer := by
  obtain ⟨slots, after, parsed⟩ := known.parsed
  obtain ⟨span, located⟩ : ∃ span, whole.frame.layoutSpan = some span := by
    obtain ⟨front, -, current, -, -, -, same, -⟩ := FrameHeader.parse_recut parsed complete.own
    exact ⟨_, congrArg FrameHeader.layoutSpan same⟩
  have puts := (complete.closed span located).puts
    (whole.frame.writeRewritten whole.header.payload template.target whole.layout)
    fun stop found inside => by
      rw [kept]
      refine FrameHeader.writeRewritten_own parsed complete.own complete.cut found ?_
      intro other same
      obtain rfl := Option.some.inj (located.symm.trans same)
      exact inside
  obtain ⟨writer, run, takes⟩ := replace_run inRange puts small assembly aligned fits
  refine ⟨writer, ?_, takes⟩
  have own' : ¬whole.frame.showExisting = true := by
    rw [complete.own]
    decide
  simp only [obu, own', frameHeader, present, layout]
  refine (Step.bind_of_ok run).trans ?_
  rw [Step.modify_eq, complete.cut]
  rfl

/-- A group that is not the last one of its frame is only counted. -/
theorem tileGroup_counts (template : Template) (obu : Obu) {assembly : Assembly} {frame : OpenFrame}
    {group : TileGroup} (open_ : assembly.frame = some frame)
    (more : group.endsFrame frame.template = false) :
    tileGroup template obu group assembly =
      .ok () { assembly with groups := assembly.groups + 1 } := by
  rw [tileGroup, Step.bind_of_ok (Step.modify_eq _ _), Step.get_bind]
  simp only [open_, more, Bool.false_eq_true, if_false]
  rfl

/-- Groups in front of the last one are only counted. -/
theorem tileGroups_run (template : Template) {layout : TileLayout} {groups : List GroupObu}
    (more : ∀ held ∈ groups, held.group.endsFrame layout = false) (assembly : Assembly)
    (open_ : assembly.frame = some ⟨layout, layout⟩) :
    (groups.map GroupObu.parsed).forM (obu template) assembly =
      .ok () { assembly with groups := assembly.groups + groups.length } := by
  induction groups generalizing assembly with
  | nil => rfl
  | cons held rest ih =>
    obtain ⟨here, later⟩ := List.forall_mem_cons.1 more
    have first : obu template held.parsed assembly =
        .ok () { assembly with groups := assembly.groups + 1 } :=
      tileGroup_counts template held.obu open_ here
    have behind := ih later { assembly with groups := assembly.groups + 1 } open_
    refine ((Step.bind_of_ok first).trans behind).trans ?_
    simp only [List.length_cons, Nat.add_assoc, Nat.add_comm 1]

/-- In place of the last group of a frame, one with all tiles is written. -/
theorem lastTileGroup_run (template : Template) {layout : TileLayout} {held : GroupObu}
    (last : held.group.endsFrame layout = true) (inRange : held.obu.header.InRange)
    (assembly : Assembly) (open_ : assembly.frame = some ⟨layout, layout⟩) {tiles : List Bytes}
    (come : template.tiles.map (fun slot =>
      slot.info.tileData slot.unit assembly.firstGroup (assembly.groups + 1)) = tiles)
    (narrow : layout.tileSizeBytes ≤ 8) (all : tiles.length = layout.tileCount)
    (sized : TileGroup.Sized layout.tileSizeBytes tiles)
    (small : (TileGroup.coded layout tiles).length ≤ Emit.maxPayload)
    (aligned : assembly.writer.pending = [])
    (fits : assembly.writer.buffer.size +
      (Obu.coded held.obu.header (TileGroup.coded layout tiles)).length + Emit.reservation ≤
        assembly.writer.buffer.capacity) :
    ∃ writer, obu template held.parsed assembly =
        .ok () ⟨writer, none, assembly.firstGroup, assembly.groups + 1⟩ ∧
      assembly.writer.Takes (Obu.coded held.obu.header (TileGroup.coded layout tiles)) writer := by
  have written : Write.Puts 0 (Emit.closed false
      (liftM (TileGroup.writeAll layout tiles : Write Unit) : Emit Unit))
      (TileGroup.coded layout tiles) () := by
    have puts := (TileGroup.writeAll_puts narrow all sized).emit.bind (.pure ())
    rwa [List.append_nil] at puts
  obtain ⟨front, frame, firstGroup, groups⟩ := assembly
  obtain rfl : frame = some ⟨layout, layout⟩ := open_
  simp only at come aligned fits
  obtain ⟨writer, run, takes⟩ := replace_run inRange written small
    ⟨front, some ⟨layout, layout⟩, firstGroup, groups + 1⟩ aligned fits
  refine ⟨writer, ?_, takes⟩
  simp only [obu, GroupObu.parsed, tileGroup]
  rw [Step.bind_of_ok (Step.modify_eq _ _), Step.get_bind]
  simp only [last, if_true, come]
  exact Step.bind_of_ok run

theorem forM_append (template : Template) (items more : List ParsedObu) :
    (items ++ more).forM (obu template) =
      (items.forM (obu template) >>= fun _ => more.forM (obu template)) :=
  List.forM_append

/-- A frame is written as its header and one group with all its tiles. -/
theorem frame_adds {template : Template} {count capacity : Nat} {last : Option TileLayout}
    {state behind : DecoderState} {packet : Packet} {parts : List UnitPart}
    (mergeable : Mergeable count capacity last state packet.data parts behind)
    (inRange : state.InRange) (positive : 1 ≤ count)
    (fits : template.Fits count packet behind.sequence parts) {whole : WholeFrame}
    (member : whole ∈ unitFrames parts) {front back : List GroupObu}
    (split : unitGroups parts = front ++ (whole.groups ++ back))
    (small : (UnitPart.frame whole).merged.length ≤ Emit.maxPayload) :
    Adds (whole.parsed.forM (obu template)) front.length whole.groups.length
      (UnitPart.frame whole).merged := by
  obtain ⟨own, present, known, complete, -, expressible, -⟩ :=
    mergeable.layout inRange positive member
  have kept : template.target = none := by
    rcases fits.kept with none | ⟨none, -⟩
    · exact none
    · rw [none] at member
      cases member
  obtain ⟨groups, final, rows, more, ends⟩ := complete.exists_last known positive
  have merged : (UnitPart.frame whole).merged = whole.header.bytes ++
      Obu.coded final.obu.header (TileGroup.coded whole.layout whole.tiles) := by
    rw [UnitPart.merged, WholeFrame.mergedGroup, rows, List.getLast?_concat]
  have lengths := congrArg List.length merged
  rw [List.length_append, Obu.bytes, Obu.length_coded, Obu.length_coded] at lengths
  have headerInRange : whole.header.header.InRange :=
    (mergeable.within ⟨whole.header, .frameHeader whole.frame⟩
      (List.mem_flatMap.2 ⟨_, mem_unitFrames.1 member, List.mem_cons_self⟩)).header
  have finalMember : final ∈ whole.groups := by
    rw [rows]
    exact List.mem_append_right _ List.mem_cons_self
  have finalInRange : final.obu.header.InRange :=
    (mergeable.within final.parsed (mem_unitObus_of_mem_unitGroups
      (List.mem_flatMap.2 ⟨_, member, finalMember⟩))).header
  obtain ⟨geometry, slots⟩ := fits.tiles
  have come : template.tiles.map (fun slot => slot.info.tileData slot.unit front.length
      (front.length + groups.length + 1)) = whole.tiles := by
    have data := fun tile => mergeable.tileData_eq inRange (geometry tile) split tile
    have stop : front.length + groups.length + 1 = front.length + whole.groups.length := by
      rw [rows, List.length_append, List.length_singleton, Nat.add_assoc]
    rw [slots, List.map_map, ← complete.tiles_eq, stop]
    exact List.map_congr_left fun tile _ => data tile
  have all : whole.tiles.length = whole.layout.tileCount := by
    rw [complete.length_tiles, complete.tileCount]
  have narrow := expressible.tileSizeBytes.2
  intro assembly aligned counted room
  rw [merged, List.length_append] at room
  obtain ⟨opened, run₁, takes₁⟩ := frameHeader_run known complete (fits.known.trans present) kept
    (fits.layout whole member own present) headerInRange (by omega) aligned (by omega)
  have size := takes₁.size
  have capacity := takes₁.capacity
  rw [counted] at run₁
  have run₂ := tileGroups_run template more
    ⟨opened, some ⟨whole.layout, whole.layout⟩, front.length, front.length⟩ rfl
  obtain ⟨closed, run₃, takes₃⟩ := lastTileGroup_run template ends finalInRange
    ⟨opened, some ⟨whole.layout, whole.layout⟩, front.length, front.length + groups.length⟩ rfl
    come (by omega) all (mergeable.sized whole member) (by omega) takes₁.aligned
    (by simp only; omega)
  have whole_run : whole.parsed.forM (obu template) assembly =
      .ok () ⟨closed, none, front.length, front.length + groups.length + 1⟩ := by
    rw [WholeFrame.parsed, rows, List.map_append]
    refine (Step.bind_of_ok run₁).trans ?_
    rw [forM_append, Step.bind_of_ok run₂]
    exact Step.bind_of_ok run₃
  refine ⟨_, whole_run, ?_, ?_⟩
  · rw [merged]
    exact takes₁.trans takes₃
  · rw [rows, List.length_append, List.length_singleton, Nat.add_assoc]

/-- What is no frame is written as it was, and is no tile group. -/
theorem alonePart_adds {template : Template} {count capacity : Nat} {last : Option TileLayout}
    {state behind : DecoderState} {packet : Packet} {parts : List UnitPart}
    (mergeable : Mergeable count capacity last state packet.data parts behind)
    (inRange : state.InRange) (fits : template.Fits count packet behind.sequence parts)
    {parsed : ParsedObu} (member : .alone parsed ∈ parts)
    (small : (UnitPart.alone parsed).merged.length ≤ Emit.maxPayload) (start : Nat) :
    Adds ((UnitPart.alone parsed).parsed.forM (obu template)) start 0
      (UnitPart.alone parsed).merged := by
  have inside : parsed ∈ unitObus parts := List.mem_flatMap.2 ⟨_, member, List.mem_cons_self⟩
  have kept : (UnitPart.alone parsed).isSequence = true → template.target = none := by
    intro sequence
    rcases fits.kept with none | ⟨-, others⟩
    · exact none
    · rw [others _ member] at sequence
      cases sequence
  have payload : parsed.obu.payload.length ≤ Emit.maxPayload := by
    have length := Obu.length_coded parsed.obu.header parsed.obu.payload
    rw [UnitPart.merged, Obu.bytes] at small
    omega
  have written := alone_adds (mergeable.complete _ member) (mergeable.known inRange _ member) kept
    (mergeable.within _ inside).header payload start
  rw [UnitPart.merged, ← List.append_nil parsed.obu.bytes]
  exact written.bind (.pure _)

/-- Part by part the whole unit is written. -/
theorem parts_add {template : Template} {count capacity : Nat} {last : Option TileLayout}
    {state behind : DecoderState} {packet : Packet} {parts : List UnitPart}
    (mergeable : Mergeable count capacity last state packet.data parts behind)
    (inRange : state.InRange) (positive : 1 ≤ count)
    (fits : template.Fits count packet behind.sequence parts) {front rest : List UnitPart}
    (split : parts = front ++ rest) :
    Adds ((unitObus rest).forM (obu template)) (unitGroups front).length (unitGroups rest).length
      (mergedUnit rest) := by
  induction rest generalizing front with
  | nil => exact .pure _
  | cons part rest ih =>
    have member : part ∈ parts := by
      rw [split]
      exact List.mem_append_right _ List.mem_cons_self
    have small : part.merged.length ≤ Emit.maxPayload := by
      have total := mergeable.mergedSmall
      rw [split, mergedUnit, List.flatMap_append, List.flatMap_cons, List.length_append,
        List.length_append] at total
      rw [Emit.maxPayload]
      omega
    have groups : unitGroups parts = unitGroups front ++ unitGroups (part :: rest) := by
      rw [split, unitGroups, unitFrames, List.filterMap_append, List.flatMap_append]
      rfl
    have further : parts = (front ++ [part]) ++ rest := by
      rw [split, List.append_assoc]
      rfl
    have later := ih further
    have obus : unitObus (part :: rest) = part.parsed ++ unitObus rest := rfl
    have merged : mergedUnit (part :: rest) = part.merged ++ mergedUnit rest := rfl
    rw [obus, forM_append, merged]
    cases part with
    | alone parsed =>
      have first := alonePart_adds mergeable inRange fits member small (unitGroups front).length
      have same : unitGroups (front ++ [.alone parsed]) = unitGroups front := by
        rw [unitGroups, unitFrames, List.filterMap_append, List.flatMap_append]
        exact List.append_nil _
      have none : unitGroups (.alone parsed :: rest) = unitGroups rest := rfl
      rw [same] at later
      rw [none, ← Nat.zero_add (unitGroups rest).length]
      exact first.bind later
    | frame whole =>
      have inside : whole ∈ unitFrames parts := mem_unitFrames.2 member
      have own : unitGroups (.frame whole :: rest) = whole.groups ++ unitGroups rest := rfl
      rw [own] at groups
      have first := frame_adds mergeable inRange positive fits inside groups small
      have behind : unitGroups (front ++ [.frame whole]) = unitGroups front ++ whole.groups := by
        rw [unitGroups, unitFrames, List.filterMap_append, List.flatMap_append]
        exact congrArg _ (List.append_nil _)
      rw [behind, List.length_append] at later
      rw [own, List.length_append]
      exact first.bind later

/-- All tiles of a unit together make up the unit with one tile group for each frame. -/
theorem unit_eq_ok {template : Template} {count capacity : Nat} {last : Option TileLayout}
    {state behind : DecoderState} {packet : Packet} {parts : List UnitPart}
    (mergeable : Mergeable count capacity last state packet.data parts behind)
    (inRange : state.InRange) (positive : 1 ≤ count)
    (fits : template.Fits count packet behind.sequence parts) :
    unit template (unitObus parts) capacity = .ok (mergedUnit parts) := by
  have adds := parts_add mergeable inRange positive fits (List.nil_append parts).symm
  have room := mergeable.room
  have empty : (BitWriter.empty capacity).contents = [] := rfl
  have start : (BitWriter.empty capacity).buffer.size = 0 := rfl
  obtain ⟨final, run, takes, -⟩ := adds ⟨.empty capacity, none, 0, 0⟩ rfl rfl (by
    simp only [start]
    have bound : (BitWriter.empty capacity).buffer.capacity = capacity := rfl
    omega)
  have contents : final.writer.contents = mergedUnit parts := by
    rw [takes.contents, empty, List.nil_append]
  have whole : final.writer.bits.length % 8 = 0 := by
    rw [Write.bits_of_aligned takes.aligned, Bits.length_ofBytes]
    omega
  have finished := (Emit.finish_of_whole (by rw [takes.aligned]; decide) whole).1
  have lifted : (liftM Emit.finish : Assemble Bytes) final = .ok (mergedUnit parts) final := by
    simp only [liftM, monadLift, MonadLift.monadLift, finished, contents]
  have all : ((unitObus parts).forM (obu template) >>= fun _ =>
      (liftM Emit.finish : Assemble Bytes)) ⟨.empty capacity, none, 0, 0⟩ =
        .ok (mergedUnit parts) final := (Step.bind_of_ok run).trans lifted
  rw [unit]
  simp only [all]

end Assemble

end Av1Tiling
