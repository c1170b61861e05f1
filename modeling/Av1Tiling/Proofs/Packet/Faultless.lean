import Av1Tiling.Proofs.Frame.Faultless
import Av1Tiling.Proofs.Frame.Retargeting
import Av1Tiling.Proofs.Packet.Output
import Av1Tiling.Proofs.Packet.Repacker

/-!
# Units without faults

Whatever the packets of a unit hold, taking them apart and writing the unit goes wrong for a reason.
A computation only leaves its range where the number of tiles that tile 0 declares is no word. All
else that a tile info says is a word, is compared before it is used, or bounds what is taken from
the unit.
-/

namespace Av1Tiling

open Write

/-! ## Taking packets apart -/

namespace TileInfo

variable {ε α : Type}

/-- From wherever it starts, the step yields values with `yields` only. -/
abbrev Reads (step : EStateM ε Cursor α) (yields : α → Prop) : Prop :=
  Step.Keeps (fun _ => True) (fun _ => True) step yields

theorem readWord_reads : Reads readWord Word := by
  refine .intro (fun cursor value behind _ run => ⟨?_, trivial⟩) fun _ _ _ _ _ => trivial
  rw [readWord] at run
  split at run
  next bytes after success =>
    cases run
    have below := Bytes.toNatLE_lt bytes
    rw [(Cursor.extract_eq_ok success).1] at below
    exact below
  next => cases run

theorem readWords_reads (count : Nat) :
    Reads (readWords count) fun values => ∀ value ∈ values, Word value := by
  induction count with
  | zero => exact .pure (by rintro _ ⟨⟩)
  | succ count ih =>
    exact readWord_reads.bind fun first word => ih.bind fun rest words =>
      .pure (List.forall_mem_cons.2 ⟨word, words⟩)

theorem readGeometry_reads : Reads readGeometry fun geometry =>
    ∀ value ∈ geometryWords geometry, Word value := by
  refine readWord_reads.bind fun width w₁ => readWord_reads.bind fun height w₂ =>
    readWord_reads.bind fun columns w₃ => readWord_reads.bind fun rows w₄ =>
    readWord_reads.bind fun x w₅ => readWord_reads.bind fun y w₆ =>
    readWord_reads.bind fun tileWidth w₇ => readWord_reads.bind fun tileHeight w₈ => .pure ?_
  simp only [geometryWords, List.forall_mem_cons]
  exact ⟨w₁, w₂, w₃, w₄, w₅, w₆, w₇, w₈, by rintro _ ⟨⟩⟩

theorem words_reads {step : EStateM StreamError Cursor α} {yields : α → Prop}
    (reads : Reads step yields) : Reads (words step) yields := by
  intro cursor start
  have known := reads cursor start
  rw [words]
  cases run : step cursor with
  | ok value behind =>
    rw [run] at known
    exact known
  | error cause behind => trivial

theorem readObus_reads : Reads readObus fun _ => True :=
  .intro (fun _ _ _ _ _ => ⟨trivial, trivial⟩) fun _ _ _ _ _ => trivial

/-- Where a span stops can be computed. -/
theorem readGroups_reads : Reads readGroups fun groups =>
    ∀ span ∈ groups, Word span.offset ∧ Word span.size := by
  have column := words_reads (readWords_reads maxGroups)
  refine (words_reads readWord_reads).bind fun count _ => .ite (fun _ => .throw trivial) fun _ =>
    column.bind fun sizes sizesFit => column.bind fun offsets offsetsFit => .pure ?_
  intro span member
  have member := List.mem_of_mem_take member
  rw [← List.map_uncurry_zip_eq_zipWith] at member
  obtain ⟨⟨size, offset⟩, pair, rfl⟩ := List.mem_map.1 member
  obtain ⟨size, offset⟩ := List.of_mem_zip pair
  exact ⟨offsetsFit _ offset, sizesFit _ size⟩

/-- All numbers of a tile info are words. -/
theorem read_reads : Reads read fun info =>
    (∀ value ∈ geometryWords info.geometry, Word value) ∧
      ∀ span ∈ info.groups, Word span.offset ∧ Word span.size :=
  readObus_reads.bind fun _ _ => (words_reads readGeometry_reads).bind fun _ geometry =>
    (words_reads readWord_reads).bind fun _ _ => readGroups_reads.bind fun _ groups =>
      .pure ⟨geometry, groups⟩

/-- The tile info of a packet has words only, and its spans lie inside of the unit. -/
structure Within (info : TileInfo) (unit : Bytes) : Prop where
  geometry : ∀ value ∈ geometryWords info.geometry, Word value
  words : ∀ span ∈ info.groups, Word span.offset ∧ Word span.size
  spans : ∀ span ∈ info.groups, span.stop ≤ unit.length

theorem splitPacket_within {data unit : Bytes} {info : TileInfo}
    (split : splitPacket data = .ok (info, unit)) : info.Within unit := by
  obtain ⟨-, ⟨behind, run⟩, -, -, inside⟩ := splitPacket_sound split
  obtain ⟨geometry, words⟩ := (read_reads.of_ok trivial run).1
  exact ⟨geometry, words, inside⟩

end TileInfo

/-! ## Collecting -/

/-- A loop fails as one of its turns. -/
theorem Checked.forIn_eq_error {ε α : Type} {items : List α}
    {turn : α → PUnit.{1} → Except ε (ForInStep PUnit.{1})} {cause : ε}
    (run : forIn items ⟨⟩ turn = .error cause) : ∃ item ∈ items, turn item ⟨⟩ = .error cause := by
  induction items with
  | nil => cases run
  | cons item rest ih =>
    rw [List.forIn_cons] at run
    rcases Checked.bind_eq_error.1 run with failed | ⟨next, -, run⟩
    · exact ⟨item, List.mem_cons_self, failed⟩
    · cases next with
      | done => cases run
      | yield =>
        obtain ⟨later, member, failed⟩ := ih run
        exact ⟨later, List.mem_cons_of_mem _ member, failed⟩

/-- A computation that can only fail for a fault fails as part of another as it does alone. -/
theorem Checked.lift_eq_error {ε α : Type} {result : Except Fault α} {cause : Failure ε} :
    (liftM result : Except (Failure ε) α) = .error cause ↔
      ∃ fault, result = .error fault ∧ cause = .fault fault := by
  cases result with
  | ok value =>
    constructor
    · rintro ⟨⟩
    · rintro ⟨_, ⟨⟩, _⟩
  | error fault =>
    constructor
    · rintro ⟨⟩
      exact ⟨fault, rfl, rfl⟩
    · rintro ⟨_, ⟨⟩, rfl⟩
      rfl

namespace TileGrid

variable {first : TileGeometry} {geometries : List TileGeometry}

theorem collect_ok_word {grid : TileGrid} (success : collect first geometries = .ok grid) :
    first.tileCount < Checked.wordBound := by
  obtain ⟨_, counted, -⟩ := Checked.bind_eq_ok.1 success
  exact (Checked.word_eq_ok_iff.1 (Checked.lift_eq_ok.1 counted)).1

/-- The tiles are counted before anything else, and nothing else leaves its range. -/
theorem collect_error {cause : Failure PacketError}
    (failed : collect first geometries = .error cause) :
    cause.IsFault ↔ Checked.wordBound ≤ first.tileCount := by
  rcases Checked.bind_eq_error.1 failed with large | ⟨tiles, counted, failed⟩
  · obtain ⟨fault, large, rfl⟩ := Checked.lift_eq_error.1 large
    refine iff_of_true ⟨fault, rfl⟩ (Nat.le_of_not_lt fun fits => ?_)
    rw [Checked.word_eq_ok fits] at large
    cases large
  · obtain ⟨fits, -⟩ := Checked.word_eq_ok_iff.1 (Checked.lift_eq_ok.1 counted)
    refine iff_of_false ?_ (Nat.not_le.2 fits)
    by_cases all : tiles ≠ geometries.length
    · rw [if_pos all] at failed
      cases failed
      exact Failure.not_isFault_raised _
    rw [if_neg all] at failed
    rcases Checked.bind_eq_error.1 failed with loop | ⟨_, -, failed⟩
    · obtain ⟨⟨geometry, index⟩, -, failed⟩ := Checked.forIn_eq_error loop
      simp only at failed
      split at failed <;> cases failed
      exact Failure.not_isFault_raised _
    · cases failed

end TileGrid

/-! ## Laying out -/

/-- The sides of some frame, or of no frame. -/
def AreSides (width height : Nat) : Prop :=
  width = 0 ∧ height = 0 ∨ IsSide width ∧ IsSide height

theorem FrameSize.InRange.sides {size : FrameSize} (inRange : size.InRange) :
    AreSides size.frameWidth size.frameHeight := by
  rcases inRange with ⟨-, width, height⟩ | ⟨-, width, height⟩
  · exact .inl ⟨width, height⟩
  · exact .inr ⟨width, height⟩

/-- There is a grid for the sides of any frame, and of no frame. -/
theorem AreSides.checked {width height : Nat} (sides : AreSides width height) (large : Bool) :
    ∃ grid, SuperblockGrid.checked width height large = .ok grid := by
  rcases sides with ⟨rfl, rfl⟩ | ⟨wide, high⟩
  · have none : FrameSize.zero.InRange := .inl ⟨rfl, rfl, rfl⟩
    obtain ⟨grid, success, -⟩ := ReadFrame.grid_gives none large
    exact ⟨grid, success⟩
  · exact ⟨_, SuperblockGrid.checked_eq_ok wide high large⟩

namespace TileGrid

variable {grid : TileGrid} {frame : FrameHeader} {sequence : SequenceHeader}

theorem layoutFor_error {cause : Failure ObuError}
    (sides : AreSides grid.geometry.width grid.geometry.height)
    (failed : grid.layoutFor frame sequence = .error cause) : ¬ cause.IsFault := by
  rcases Checked.bind_eq_error.1 failed with checked | ⟨superblocks, -, failed⟩
  · obtain ⟨fault, checked, -⟩ := Checked.lift_eq_error.1 checked
    obtain ⟨found, success⟩ := sides.checked sequence.largeSuperblocks
    rw [success] at checked
    cases checked
  cases placed : TileLayout.ofPixelStarts superblocks grid.xs grid.ys with
  | error other =>
    rw [placed] at failed
    cases failed
    exact Failure.not_isFault_raised _
  | ok layout =>
    simp only [placed, pure_bind] at failed
    split at failed
    · split at failed <;> cases failed
    · cases failed

/-- Tiles start inside of the frame, so there is something to cut. -/
theorem layoutFor_nonempty {layout : TileLayout}
    (success : grid.layoutFor frame sequence = .ok layout) :
    1 ≤ layout.grid.sbCols ∧ 1 ≤ layout.grid.sbRows := by
  obtain ⟨found, placed, -⟩ := layoutFor_found success
  obtain ⟨cols, -, placed⟩ := Checked.bind_eq_ok.1 placed
  obtain ⟨rows, -, placed⟩ := Checked.bind_eq_ok.1 placed
  obtain ⟨_, _, across, down, -⟩ := TileLayout.ofSuperblockStarts_eq_ok.1 placed
  obtain ⟨-, -, -, -, sbCols⟩ := TileLayout.cut_of_closeStarts across
  obtain ⟨-, -, -, -, sbRows⟩ := TileLayout.cut_of_closeStarts down
  exact ⟨sbCols, sbRows⟩

end TileGrid

/-! ## The size of the frame -/

namespace Decode

variable {state after : DecoderState}

/-- A frame that is cut has the sides of some frame. -/
theorem Interprets.sides {parsed : List ParsedObu} (interprets : Interprets state parsed after)
    (inRange : state.InRange) {item : ParsedObu} (member : item ∈ parsed) {size : Nat × Nat}
    (cut : item.cutSize? = some size) : AreSides size.1 size.2 := by
  obtain ⟨front, back, rfl⟩ := List.append_of_mem member
  obtain ⟨between, before, later⟩ := interprets.split
  obtain ⟨_, run, -⟩ := Interprets.cons_iff.1 later
  obtain ⟨obu, content⟩ := item
  cases content with
  | frameHeader frame =>
    have known := (interpret_outcome run).frame_inRange (before.inRange inRange)
    simp only [ParsedObu.cutSize?] at cut
    split at cut <;> cases cut
    exact known.size.sides
  | _ => cases cut

end Decode

/-- The dimensions of a sequence are the sides of a frame. -/
theorem FrameDimensions.areSides {width height : Nat}
    (wide : 1 ≤ width ∧ width ≤ maxDimension) (high : 1 ≤ height ∧ height ≤ maxDimension) :
    AreSides width height :=
  .inr ⟨wide, high⟩

theorem SequenceHeader.withDimensions_sides {sequence target : SequenceHeader} {width height : Nat}
    (success : sequence.withDimensions width height = .ok target) : AreSides width height := by
  by_cases legal : (1 ≤ width ∧ width ≤ FrameDimensions.maxDimension) ∧
      (1 ≤ height ∧ height ≤ FrameDimensions.maxDimension)
  · exact FrameDimensions.areSides legal.1 legal.2
  · obtain ⟨name, value, refused⟩ := sequence.dimensions.resize_refuses legal
    rw [withDimensions, refused] at success
    cases success

/-- Where there is a sequence, the tiles lie in a frame. -/
def Template.Sided (template : Template) : Prop :=
  ∀ own, template.sequence = some own →
    AreSides template.grid.geometry.width template.grid.geometry.height

namespace TileRepacker.Repack

variable {state after : DecoderState} {tiles : List TileSlot} {first : TileSlot}
  {parsed : List ParsedObu}

theorem templateFor_sided {template : Template}
    (interprets : Decode.Interprets state parsed after) (inRange : state.InRange)
    (success : templateFor after.sequence tiles first parsed = .ok template) :
    template.Sided := by
  intro own present
  obtain ⟨-, same, -, -, resized⟩ := templateFor_sound success
  rw [same] at present
  have known := resized own present
  split at known
  next matched =>
    rw [TileGrid.matchesFrameSize_eq, beq_iff_eq] at matched
    cases found : parsed.findSome? ParsedObu.cutSize? with
    | some size =>
      obtain ⟨item, member, cut⟩ := List.exists_of_findSome?_eq_some found
      have sides := interprets.sides inRange member cut
      rw [found, Option.getD_some] at matched
      rwa [matched] at sides
    | none =>
      have dimensions := ((interprets.inRange inRange).sequence own present).dimensions
      have sides := FrameDimensions.areSides dimensions.width dimensions.height
      rw [found, Option.getD_none] at matched
      obtain ⟨width, height⟩ := Prod.mk.inj matched
      rwa [width, height] at sides
  next =>
    obtain ⟨target, -, resized⟩ := known
    exact SequenceHeader.withDimensions_sides resized

/-- Whether the tiles make up a template or not, they are counted. -/
theorem templateFor_error {sequence : Option SequenceHeader} {cause : Failure PacketError}
    (failed : templateFor sequence tiles first parsed = .error cause) :
    cause.IsFault ↔ Checked.wordBound ≤ first.info.geometry.tileCount := by
  rcases Checked.bind_eq_error.1 failed with collected | ⟨grid, collected, failed⟩
  · exact TileGrid.collect_error collected
  refine iff_of_false ?_ (Nat.not_le.2 (TileGrid.collect_ok_word collected))
  cases described : first.info.describes (parsed.map ParsedObu.obu) with
  | false =>
    simp only [described, Bool.false_eq_true, if_false] at failed
    cases failed
    exact Failure.not_isFault_raised _
  | true =>
    simp only [described, if_true, pure_bind] at failed
    split at failed
    · cases failed
      exact Failure.not_isFault_raised _
    cases sequence with
    | none => cases failed
    | some own =>
      by_cases same : grid.matchesFrameSize parsed own = true
      · simp only [same, if_true] at failed
        cases failed
      · simp only [same] at failed
        cases resized : own.withDimensions grid.geometry.width grid.geometry.height with
        | ok target =>
          simp only [resized] at failed
          cases failed
        | error other =>
          simp only [resized] at failed
          cases failed
          exact Failure.not_isFault_raised _

end TileRepacker.Repack

/-! ## Writing a unit -/

namespace Assemble

variable {α : Type} {template : Template}

/-- Where the output has refused no byte, `step` yields a value with `yields` and leaves such an
    output, or fails and not for a fault. -/
abbrev Safe (step : Assemble α) (yields : α → Prop) : Prop :=
  Step.Keeps (·.writer.Tight) (¬ Failure.IsFault ·) step yields

/-- A step of OBUs is as safe in a unit. -/
theorem safe_of_emit {step : Emit α} {yields : α → Prop} (safe : Emit.Safe step yields) :
    Safe (liftM step) yields := by
  intro assembly tight
  have known := safe assembly.writer tight
  simp only [liftM, monadLift, MonadLift.monadLift]
  cases run : step assembly.writer with
  | ok value behind =>
    rw [run] at known
    exact known
  | error cause behind =>
    rw [run] at known
    exact (not_congr Failure.isFault_map).2 known

/-- A computation that fails for no fault writes nothing. -/
theorem Safe.lift {result : Except (Failure ObuError) α} {yields : α → Prop}
    (success : ∀ value, result = .ok value → yields value)
    (failure : ∀ cause, result = .error cause → ¬ cause.IsFault) : Safe (liftM result) yields := by
  cases result with
  | ok value => exact Step.Keeps.pure (success value rfl)
  | error cause =>
    exact Step.Keeps.throw ((not_congr Failure.isFault_map).2 (failure cause rfl))

theorem replace_safe {obu : Obu} (inRange : obu.header.InRange) {trailing : Bool}
    {payload : Emit Unit} {adds : Bits → Prop} (grows : Grows payload adds)
    (safe : Emit.Safe payload fun _ => True) :
    Safe (replace obu trailing payload) fun _ => True :=
  (safe_of_emit (Emit.obu_safe inRange grows safe)).bind fun _ _ => .pure trivial

theorem sequenceHeader_safe {obu : Obu} (inRange : obu.header.InRange)
    (sequence : SequenceHeader) : Safe (sequenceHeader template obu sequence) fun _ => True :=
  replace_safe inRange (sequenceHeader_grows sequence _ _ _)
    ((Emit.safe_of_write (sequence.writeWithDimensions_safe _ _ _)).bind fun _ _ => .pure trivial)

theorem existingFrame_safe {obu : Obu} (inRange : obu.header.InRange) :
    Safe (existingFrame obu) fun _ => True := by
  have copied (stop : Nat) : Emit.Safe (liftM (copy obu.payload 0 stop)) fun _ => True :=
    Emit.safe_of_write (copy_safe _ _ _)
  have stop : Emit.Safe (liftM (TrailingBit.position obu.payload)) fun _ => True :=
    .lift fun _ _ => trivial
  exact replace_safe inRange (existingFrame_grows _) (stop.bind fun stop _ => copied stop)

/-- The layout of a frame is found or not, and its header is rewritten for a layout that has
    something to cut. -/
theorem frameHeader_safe {obu : Obu} (inRange : obu.header.InRange) (frame : FrameHeader)
    (sided : template.Sided) : Safe (frameHeader template obu frame) fun _ => True := by
  rw [frameHeader]
  cases present : template.sequence with
  | none => exact .throw (Failure.not_isFault_raised _)
  | some own =>
    have sides := sided own present
    have layout : Safe (liftM (template.grid.layoutFor frame own)) fun layout =>
        1 ≤ layout.grid.sbCols ∧ 1 ≤ layout.grid.sbRows :=
      .lift (fun _ => TileGrid.layoutFor_nonempty) fun _ => TileGrid.layoutFor_error sides
    exact layout.bind fun layout nonempty =>
      (replace_safe inRange (frame.writeRewritten_grows _ _ _)
        (frame.writeRewritten_safe _ _ nonempty.1 nonempty.2)).bind fun _ _ =>
          .modify fun _ tight => tight

theorem tileGroup_safe {obu : Obu} (inRange : obu.header.InRange) (group : TileGroup) :
    Safe (tileGroup template obu group) fun _ => True := by
  have counted : Safe (modify fun assembly => { assembly with groups := assembly.groups + 1 })
      fun _ => True := .modify fun _ tight => tight
  refine counted.bind fun _ _ => .get_bind fun assembly _ => ?_
  cases assembly.frame with
  | none => exact .throw (Failure.not_isFault_raised _)
  | some frame =>
    refine .ite (fun _ => ?_) fun _ => .pure trivial
    have written (tiles : List Bytes) : Safe (replace obu false
        (TileGroup.writeAll frame.layout tiles : Write Unit)) fun _ => True :=
      replace_safe inRange (TileGroup.writeAll_grows _ _).emit
        (Emit.safe_of_write (TileGroup.writeAll_safe _ _))
    exact (written _).bind fun _ _ => .modify fun _ tight => tight

/-- Whatever an OBU of the template holds, what takes its place is written or not for a reason. -/
theorem obu_safe {parsed : ParsedObu} (inRange : parsed.obu.header.InRange)
    (sided : template.Sided) : Safe (obu template parsed) fun _ => True := by
  obtain ⟨obu, content⟩ := parsed
  cases content with
  | temporalDelimiter => exact replace_safe inRange (.pure ()) (.pure trivial)
  | sequenceHeader sequence => exact sequenceHeader_safe inRange sequence
  | frameHeader frame =>
    exact .ite (fun _ => existingFrame_safe inRange) fun _ => frameHeader_safe inRange frame sided
  | tileGroup group => exact tileGroup_safe inRange group
  | frameHeaderCopy => exact .pure trivial
  | frame frame => exact .pure trivial
  | other =>
    exact .ite (fun _ => .pure trivial) fun _ => .throw (Failure.not_isFault_raised _)

theorem unit_error {parsed : List ParsedObu} {capacity : Nat} {cause : Failure PacketError}
    (headers : ∀ item ∈ parsed, item.obu.header.InRange) (sided : template.Sided)
    (failed : unit template parsed capacity = .error cause) : ¬ cause.IsFault := by
  have whole : Safe (parsed.forM (obu template) >>= fun _ => liftM Emit.finish) fun _ => True :=
    (Step.Keeps.forM fun item member => obu_safe (headers item member) sided).bind fun _ _ =>
      safe_of_emit Emit.finish_safe
  rw [unit] at failed
  split at failed
  next => cases failed
  next behind run =>
    cases failed
    exact whole.of_error (BitWriter.tight_empty capacity) run

end Assemble

end Av1Tiling
