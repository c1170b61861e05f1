import Av1Tiling.Proofs.Decoder.Run
import Av1Tiling.Proofs.Tile.Group

/-!
# When a frame is complete

A frame is complete with the tile group that holds its last tile, whatever came in front of it: no
decoder counts tiles. So the groups of a complete frame need not hold every tile once. They do
exactly if each of them starts behind the last tile of the one in front (`TileGroup.Follow`).
-/

namespace Av1Tiling

namespace TileGroup

/-- The first of the groups starts with the tile, and each of the others behind the last tile of
    the one in front. -/
def Follow : Nat → List TileGroup → Prop
  | _, [] => True
  | tile, group :: rest => group.first = tile ∧ Follow (group.last + 1) rest

theorem Follow.le {front : List TileGroup} {last : TileGroup} {tile : Nat}
    (follow : Follow tile (front ++ [last])) (ranged : ∀ one ∈ front ++ [last], one.Ranged) :
    tile ≤ last.last := by
  induction front generalizing tile with
  | nil =>
    obtain ⟨rfl, -⟩ := follow
    exact (ranged last List.mem_cons_self).ordered
  | cons one rest ih =>
    obtain ⟨rfl, later⟩ := follow
    have own := (ranged one List.mem_cons_self).ordered
    have behind := ih later fun other member => ranged other (List.mem_cons_of_mem one member)
    omega

/-- Groups hold the tiles from one to the last, each once and in order, if each starts where the one
    in front ends. -/
theorem flatMap_indices_iff {front : List TileGroup} {last : TileGroup} (tile : Nat)
    (ranged : ∀ one ∈ front ++ [last], one.Ranged) :
    (front ++ [last]).flatMap indices = List.range' tile (last.last + 1 - tile) ↔
      Follow tile (front ++ [last]) := by
  induction front generalizing tile with
  | nil =>
    have own := ranged last List.mem_cons_self
    have length := own.ordered
    rw [List.nil_append, List.flatMap_singleton, own.indices, List.range'_inj]
    constructor
    · rintro ⟨_, none | same⟩
      · omega
      · exact ⟨same, trivial⟩
    · rintro ⟨rfl, -⟩
      exact ⟨by omega, .inr rfl⟩
  | cons one rest ih =>
    have own := ranged one List.mem_cons_self
    have length := own.ordered
    have others : ∀ other ∈ rest ++ [last], other.Ranged := fun other member =>
      ranged other (List.mem_cons_of_mem one member)
    rw [List.cons_append, List.flatMap_cons, own.indices]
    constructor
    · intro row
      obtain ⟨size, fits, first, later⟩ := List.range'_eq_append_iff.1 row.symm
      obtain ⟨same, start⟩ := List.range'_inj.1 first
      have start : one.first = tile := by
        rcases start with none | same
        · omega
        · exact same
      have stop : tile + size * 1 = one.last + 1 := by omega
      have count : last.last + 1 - tile - size = last.last + 1 - (one.last + 1) := by omega
      rw [stop, count] at later
      exact ⟨start, (ih _ others).1 later⟩
    · rintro ⟨rfl, follow⟩
      have stop := follow.le others
      have rest := (ih _ others).2 follow
      have next : one.first + (one.last - one.first + 1) = one.last + 1 := by omega
      have count : one.last - one.first + 1 + (last.last + 1 - (one.last + 1)) =
          last.last + 1 - one.first := by omega
      have joined := List.range'_append_1 (s := one.first) (m := one.last - one.first + 1)
        (n := last.last + 1 - (one.last + 1))
      rw [next, count] at joined
      rw [rest, joined]

end TileGroup

namespace Decode

variable {events : List Event} {state behind : DecoderState} {obu : Obu} {frame : FrameHeader}

/-- The tile group that an OBU turned out to hold. -/
def Event.group? (event : Event) : Option TileGroup :=
  match event.answer with
  | .ok (.tileGroup group) => some group
  | _ => none

/-- The tile groups among some events, the earliest first. -/
def groups (events : List Event) : List TileGroup :=
  (events.filterMap Event.group?).reverse

/-- These events came behind the header of the frame, and the frame was pending all the time. -/
structure Since (frame : FrameHeader) (events later : List Event) : Prop where
  header : ∃ header earlier, events = later ++ header :: earlier ∧
    header.answer = .ok (.frameHeader frame) ∧ header.before.pending = none
  pending : ∀ event ∈ later, event.before.pending = some frame

/-- One more event while the frame is pending. -/
theorem Since.cons {later : List Event} {event : Event} (since : Since frame events later)
    (waiting : event.before.pending = some frame) :
    Since frame (event :: events) (event :: later) := by
  obtain ⟨header, earlier, rfl, own, idle⟩ := since.header
  exact ⟨⟨header, earlier, rfl, own, idle⟩, List.forall_mem_cons.2 ⟨waiting, since.pending⟩⟩

theorem Since.groups_eq_nil {later : List Event} (since : Since frame events later)
    (none : groups events = []) : groups later = [] := by
  obtain ⟨_, _, rfl, -⟩ := since.header
  rw [groups, List.filterMap_append, List.reverse_append, List.append_eq_nil_iff] at none
  exact none.2

/-- The group is one of the frame and not the last. -/
def IsEarlier (layout : TileLayout) (group : TileGroup) : Prop :=
  (∃ payload, TileGroup.parse payload layout = .ok group) ∧ group.last + 1 ≠ layout.tileCount

/-- What has come of the frame that is pending. -/
theorem Ran.since {layout : TileLayout} (ran : Ran events state)
    (waiting : state.pending = some frame) (cut : frame.layout = some layout) :
    ∃ later, Since frame events later ∧ ∀ group ∈ groups later, IsEarlier layout group := by
  -- an event that is no tile group goes in front of those that there are
  have further {events : List Event} {event : Event} (before : event.before.pending = some frame)
      (none : event.group? = none)
      (known : ∃ later, Since frame events later ∧ ∀ group ∈ groups later,
        IsEarlier layout group) :
      ∃ later, Since frame (event :: events) later ∧ ∀ group ∈ groups later,
        IsEarlier layout group := by
    obtain ⟨later, since, known⟩ := known
    refine ⟨event :: later, since.cons before, ?_⟩
    rwa [groups, List.filterMap_cons_none none]
  induction ran with
  | opened => cases waiting
  | @obu events state obu ran _ ih =>
    rcases answer_cases obu state with
      ⟨content, behind, run, outcome⟩ | ⟨cause, behind, run, left⟩ <;> rw [run] at waiting ⊢
    · cases outcome with
      | temporalDelimiter => cases waiting
      | sequenceHeader => exact further waiting rfl (ih waiting)
      | frameHeaderCopy => exact further waiting rfl (ih waiting)
      | existingFrame _ idle =>
        have none : state.pending = some frame := waiting
        rw [idle] at none
        cases none
      | frameHeader _ idle =>
        cases waiting
        exact ⟨[], ⟨⟨_, _, rfl, rfl, idle⟩, List.forall_mem_nil _⟩, List.forall_mem_nil _⟩
      | @tileGroup own found group _ present same parsed more =>
        obtain rfl := Option.some.inj (present.symm.trans waiting)
        obtain rfl := Option.some.inj (same.symm.trans cut)
        obtain ⟨later, since, known⟩ := ih waiting
        refine ⟨_ :: later, since.cons waiting, ?_⟩
        have added : groups (⟨state, obu, .ok (.tileGroup group)⟩ :: later) =
            groups later ++ [group] := List.reverse_cons
        rw [added, List.forall_mem_append, List.forall_mem_singleton]
        refine ⟨known, ⟨_, parsed⟩, fun ends => ?_⟩
        rw [TileGroup.endsFrame_iff.2 ends] at more
        cases more
      | lastTileGroup => cases waiting
      | frame => cases waiting
      | other => exact further waiting rfl (ih waiting)
    · have same : behind.pending = state.pending := by
        rcases left with rfl | left
        · rfl
        · exact left.pending
      rw [same] at waiting
      exact further waiting rfl (ih waiting)

/-- What comes of tiles for the pending frame. -/
theorem answer_tileGroup {layout : TileLayout} (type : obu.header.type = .tileGroup)
    (waiting : state.pending = some frame) (cut : frame.layout = some layout) :
    answer obu state = match TileGroup.parse obu.payload layout with
      | .error cause => (.error (cause.map .stream), state)
      | .ok group => (.ok (.tileGroup group),
          if group.last + 1 = layout.tileCount then
            { state with slots := frame.updateSlots state.slots, pending := none }
          else state) := by
  have run : interpret obu state = (tileGroup obu >>= fun group => pure (.tileGroup group)) state := by
    rw [interpret, type]
  have start : tileGroup obu state = (do
      let group ← liftM (TileGroup.parse obu.payload layout)
      if group.endsFrame layout then complete frame
      return group : Decode TileGroup) state := by
    rw [tileGroup, Step.get_bind]
    simp only [waiting, cut]
  cases parsed : TileGroup.parse obu.payload layout with
  | error cause =>
    rw [parsed] at start
    have failed : tileGroup obu state = .error (cause.map .stream) state := start
    exact answer_eq_error.2 (run.trans (Step.bind_of_error failed))
  | ok group =>
    rw [parsed] at start
    have ends : tileGroup obu state = .ok group (if group.last + 1 = layout.tileCount then
        { state with slots := frame.updateSlots state.slots, pending := none } else state) := by
      have lifted :
          (liftM (.ok group : Except (Failure StreamError) TileGroup) : Decode TileGroup) state =
            .ok group state := rfl
      refine (start.trans (Step.bind_of_ok lifted)).trans ?_
      by_cases last : group.last + 1 = layout.tileCount
      · rw [if_pos last, if_pos (TileGroup.endsFrame_iff.2 last)]
        rfl
      · rw [if_neg last, if_neg fun ends => last (TileGroup.endsFrame_iff.1 ends)]
        rfl
    exact answer_eq_ok.2 (run.trans (Step.bind_of_ok ends))

/-- What tiles do for the pending frame depends on nothing but the frame. They are accepted whatever
    tiles of it have come, and complete it if the last one is among them. The groups of a complete
    frame hold its tiles each once and in order if every group starts where the one in front
    ends. -/
theorem Ran.completes (ran : Ran events state) (type : obu.header.type = .tileGroup)
    (waiting : state.pending = some frame) :
    ∃ layout later, frame.layout = some layout ∧ Since frame events later ∧
      (∀ group, (answer obu state).1 = .ok (.tileGroup group) ↔
        TileGroup.parse obu.payload layout = .ok group) ∧
      ((answer obu state).2.pending = none ↔
        ∃ group, (answer obu state).1 = .ok (.tileGroup group) ∧
          group.last + 1 = layout.tileCount) ∧
      ∀ group, (answer obu state).1 = .ok (.tileGroup group) →
        (answer obu state).2.pending = none →
        (answer obu state).2.slots = frame.updateSlots state.slots ∧
        (∀ one ∈ groups later, one.last + 1 < layout.tileCount) ∧
        (∀ one ∈ groups later ++ [group], one.first ≤ one.last ∧ one.last < layout.tileCount ∧
          one.indices = List.range' one.first (one.last - one.first + 1)) ∧
        ((groups later ++ [group]).flatMap TileGroup.indices = List.range layout.tileCount ↔
          TileGroup.Follow 0 (groups later ++ [group])) := by
  obtain ⟨layout, cut, -⟩ := ran.reachable.inRange.layout waiting
  obtain ⟨later, since, earlier⟩ := ran.since waiting cut
  refine ⟨layout, later, cut, since, ?_⟩
  rw [answer_tileGroup type waiting cut]
  cases parsed : TileGroup.parse obu.payload layout with
  | error cause =>
    refine ⟨by simp, ?_, by simp⟩
    simp only [waiting]
    simp
  | ok group =>
    refine ⟨fun other => by simp, ?_, ?_⟩
    · by_cases last : group.last + 1 = layout.tileCount
      · simp [last]
      · simp [last, waiting]
    · rintro other same idle
      obtain rfl : group = other := by simpa using same
      have last : group.last + 1 = layout.tileCount := by
        by_cases last : group.last + 1 = layout.tileCount
        · exact last
        · simp [last, waiting] at idle
      have inside : ∀ one payload, TileGroup.parse payload layout = .ok one →
          one.last < layout.tileCount := by
        intro one payload read
        have bound := TileGroup.parse_last read
        omega
      have read : ∀ one ∈ groups later ++ [group], ∃ payload,
          TileGroup.parse payload layout = .ok one := by
        rw [List.forall_mem_append, List.forall_mem_singleton]
        exact ⟨fun one member => (earlier one member).1, _, parsed⟩
      have ranged : ∀ one ∈ groups later ++ [group], one.Ranged := fun one member =>
        TileGroup.parse_ranged (read one member).choose_spec
      refine ⟨by simp [last], fun one member => ?_, fun one member => ?_, ?_⟩
      · obtain ⟨⟨payload, own⟩, apart⟩ := earlier one member
        have bound := inside one payload own
        omega
      · obtain ⟨payload, own⟩ := read one member
        exact ⟨(ranged one member).ordered, inside one payload own, (ranged one member).indices⟩
      · rw [← TileGroup.flatMap_indices_iff 0 ranged, last, List.range_eq_range', Nat.sub_zero]

/-! ### A key frame of two tiles -/

/-- A sequence and the header of its key frame, which has two tiles. -/
def keyFrameStart : List Obu :=
  [bare .sequenceHeader [0x18, 0x19, 0xBF, 0xFF, 0x00, 0x02], bare .frameHeader [0x18, 0x40]]

/-- A tile group with both tiles of the key frame. -/
def bothTiles : Obu := bare .tileGroup [0x00, 0x01, 0xAA, 0xAB, 0xBB]

/-- A tile group with the second tile of the key frame alone. -/
def secondTile : Obu := bare .tileGroup [0xE0, 0xBB]

/-- No tile group has come of the key frame. -/
theorem groups_keyFrameStart : groups (runThrough keyFrameStart).1 = [] := by
  decide +kernel

theorem ran_keyFrameStart : Ran (runThrough keyFrameStart).1 (runThrough keyFrameStart).2 :=
  ran_runThrough (by decide +kernel)

/-- The key frame waits for two tiles. -/
theorem keyFrameStart_waits : ∃ frame layout later,
    (runThrough keyFrameStart).2.pending = some frame ∧ frame.layout = some layout ∧
      layout.tileCount = 2 ∧ Since frame (runThrough keyFrameStart).1 later := by
  have ran := ran_keyFrameStart
  have count : ((runThrough keyFrameStart).2.pending.bind (·.layout)).map
      TileLayout.tileCount = some 2 := by
    decide +kernel
  cases waiting : (runThrough keyFrameStart).2.pending with
  | none =>
    rw [waiting] at count
    cases count
  | some frame =>
    obtain ⟨layout, cut, -⟩ := ran.reachable.inRange.layout waiting
    obtain ⟨later, since, -⟩ := ran.since waiting cut
    rw [waiting, Option.bind_some, cut] at count
    exact ⟨frame, layout, later, rfl, cut, Option.some.inj count, since⟩

/-- Both tiles of the key frame complete it, each of them once. -/
theorem Ran.completes_two_tiles : ∃ events state frame layout later group,
    Ran events state ∧ bothTiles.header.type = .tileGroup ∧ state.pending = some frame ∧
      frame.layout = some layout ∧ Since frame events later ∧
      (answer bothTiles state).1 = .ok (.tileGroup group) ∧
      (answer bothTiles state).2.pending = none ∧
      (answer bothTiles state).2.slots = frame.updateSlots state.slots ∧
      (groups later ++ [group]).flatMap TileGroup.indices = List.range layout.tileCount := by
  have ran := ran_keyFrameStart
  have accepted : (answer bothTiles (runThrough keyFrameStart).2).1 =
      .ok (.tileGroup ⟨false, 0, 1, 1, [⟨0, 2, 2⟩, ⟨1, 4, 1⟩]⟩) := by
    decide +kernel
  have complete : (answer bothTiles (runThrough keyFrameStart).2).2.pending = none := by
    decide +kernel
  obtain ⟨frame, -, -, waiting, -⟩ := keyFrameStart_waits
  have type : bothTiles.header.type = .tileGroup := rfl
  obtain ⟨layout, later, cut, since, -, -, known⟩ := ran.completes type waiting
  obtain ⟨slots, -, -, once⟩ := known _ accepted complete
  refine ⟨_, _, frame, layout, later, _, ran, type, waiting, cut, since, accepted, complete, slots,
    once.2 ?_⟩
  rw [since.groups_eq_nil groups_keyFrameStart]
  exact ⟨rfl, trivial⟩

/-- The second tile alone completes the key frame. -/
theorem not_complete_with_all_tiles : ¬∀ (events : List Event) (state : DecoderState) (obu : Obu)
    (frame : FrameHeader) (layout : TileLayout) (later : List Event) (group : TileGroup),
    Ran events state → obu.header.type = .tileGroup → state.pending = some frame →
    frame.layout = some layout → Since frame events later →
    (answer obu state).1 = .ok (.tileGroup group) → (answer obu state).2.pending = none →
    (groups later ++ [group]).flatMap TileGroup.indices = List.range layout.tileCount := by
  intro claim
  obtain ⟨frame, layout, later, waiting, cut, count, since⟩ := keyFrameStart_waits
  have accepted : (answer secondTile (runThrough keyFrameStart).2).1 =
      .ok (.tileGroup ⟨true, 1, 1, 1, [⟨1, 1, 1⟩]⟩) := by
    decide +kernel
  have complete : (answer secondTile (runThrough keyFrameStart).2).2.pending = none := by
    decide +kernel
  have all := claim _ _ secondTile frame layout later _ ran_keyFrameStart rfl waiting cut since
    accepted complete
  rw [since.groups_eq_nil groups_keyFrameStart, count] at all
  exact absurd all (by decide)

end Decode

end Av1Tiling
