import Av1Tiling.Proofs.Packet.Splitter

/-!
# Surveys of units

A unit that could be parsed is gone through once for its tile groups. Each of them belongs to the
last frame whose header stands in front of it (`framedGroups`), and was read for the layout of that
frame. The survey that comes of it holds just these groups, the layout of the last frame, and the
number of tiles that all frames with tile groups have (`Survey.Surveyed`).
-/

namespace Av1Tiling

/-! ## Tile groups and their frames -/

/-- The frame whose header the OBU holds. A shown existing frame is none: it has no tiles. -/
def ParsedObu.opened? (item : ParsedObu) : Option FrameHeader :=
  match item.content with
  | .frameHeader frame => if frame.showExisting then none else some frame
  | _ => none

/-- A tile group and the header of its frame. -/
structure FramedGroup extends GroupObu where
  frame : FrameHeader
  deriving Repr, DecidableEq

/-- The last frame of a unit, `current` if it has none. -/
def lastFrame : (current : Option FrameHeader) → List ParsedObu → Option FrameHeader
  | current, [] => current
  | current, item :: rest => lastFrame (item.opened? <|> current) rest

/-- The tile groups of a unit. Each of them belongs to the last frame in front of it, the first ones
    to `current`. -/
def framedGroups : (current : Option FrameHeader) → List ParsedObu → List FramedGroup
  | _, [] => []
  | current, item :: rest =>
    match current, item.content with
    | some frame, .tileGroup group => ⟨⟨item.obu, group⟩, frame⟩ :: framedGroups current rest
    | _, _ => framedGroups (item.opened? <|> current) rest

/-- Behind a frame there is a last one. -/
theorem lastFrame_isSome (frame : FrameHeader) (unit : List ParsedObu) :
    (lastFrame (some frame) unit).isSome = true := by
  induction unit generalizing frame with
  | nil => rfl
  | cons item rest ih =>
    rw [lastFrame]
    cases item.opened? with
    | none => exact ih frame
    | some other => exact ih other

/-- An OBU without tiles belongs to no frame. -/
theorem framedGroups_skip {item : ParsedObu} (other : ∀ group, item.content ≠ .tileGroup group)
    (current : Option FrameHeader) (rest : List ParsedObu) :
    framedGroups current (item :: rest) = framedGroups (item.opened? <|> current) rest := by
  obtain ⟨obu, content⟩ := item
  cases content with
  | tileGroup group => exact absurd rfl (other group)
  | _ => cases current <;> rfl

/-- A unit with tile groups has a last frame. -/
theorem lastFrame_isSome_of_groups {current : Option FrameHeader} {unit : List ParsedObu}
    (present : framedGroups current unit ≠ []) : (lastFrame current unit).isSome = true := by
  induction unit generalizing current with
  | nil => exact absurd rfl present
  | cons item rest ih =>
    cases current with
    | some frame => exact lastFrame_isSome frame (item :: rest)
    | none => exact ih present

/-- A frame that was read, with tiles to come. -/
structure FrameHeader.Begun (frame : FrameHeader) : Prop where
  own : frame.showExisting = false
  inRange : frame.InRange
  cut : ∃ sequence, frame.CutFor sequence

/-- The layout of a frame, which may be one without tiles. -/
structure TileLayout.Framed (layout : TileLayout) : Prop where
  expressible : layout.Expressible
  inRange : 1 ≤ layout.tileCount → layout.grid.InRange
  width : layout.grid.frameWidth ≤ SuperblockGrid.maxSide
  height : layout.grid.frameHeight ≤ SuperblockGrid.maxSide

theorem FrameHeader.Begun.layout {frame : FrameHeader} (begun : frame.Begun) :
    ∃ layout, frame.layout = some layout ∧ layout.Framed ∧
      layout.grid.frameWidth = frame.size.frameWidth ∧
      layout.grid.frameHeight = frame.size.frameHeight := by
  obtain ⟨sequence, cut⟩ := begun.cut
  obtain ⟨layout, found, expressible⟩ := begun.inRange.layout begun.own
  have inRange (tiles : 1 ≤ layout.tileCount) : layout.grid.InRange :=
    (cut.grid_inRange begun.inRange begun.own found tiles).2.2
  have small : frame.size.frameWidth ≤ SuperblockGrid.maxSide ∧
      frame.size.frameHeight ≤ SuperblockGrid.maxSide := by
    rcases begun.inRange.size with ⟨-, noWidth, noHeight⟩ | ⟨-, wide, high⟩
    · rw [noWidth, noHeight]
      exact ⟨Nat.zero_le _, Nat.zero_le _⟩
    · exact ⟨wide.2, high.2⟩
  rcases cut with ⟨shown, -⟩ | ⟨-, other, same, checked⟩
  · rw [begun.own] at shown
    cases shown
  · obtain rfl := Option.some.inj (same.symm.trans found)
    have grid := SuperblockGrid.checked_eq checked
    have width : other.grid.frameWidth = frame.size.frameWidth := by rw [grid]
    have height : other.grid.frameHeight = frame.size.frameHeight := by rw [grid]
    exact ⟨other, found, ⟨expressible, inRange, width ▸ small.1, height ▸ small.2⟩, width, height⟩

/-! ## The survey -/

namespace TileSplitter.Survey

/-- What a survey comes to behind the OBUs of `unit`, in front of which the frame is `current`. -/
structure Surveyed (survey : Survey) (current : Option FrameHeader) (unit : List ParsedObu)
    (found : Survey) : Prop where
  layout : found.layout = (lastFrame current unit).bind FrameHeader.layout
  begun : ∀ frame, lastFrame current unit = some frame → frame.Begun
  groups : found.groups = survey.groups ++ (framedGroups current unit).map (·.placed)
  all : (framedGroups current unit).map (·.obu) =
    (unit.map ParsedObu.obu).filter (·.header.type = .tileGroup)
  each : ∀ held ∈ framedGroups current unit, held.frame.Begun ∧
    ∃ layout, held.frame.layout = some layout ∧
      TileGroup.parse held.obu.payload layout = .ok held.group ∧
      found.tileCount = some layout.tileCount
  kept : ∀ count, survey.tileCount = some count → found.tileCount = some count
  counted : ∀ count, found.tileCount = some count →
    survey.tileCount = some count ∨ framedGroups current unit ≠ []

variable {survey next found : Survey} {current : Option FrameHeader} {item : ParsedObu}
  {rest : List ParsedObu}

/-- An OBU without tiles adds at most a frame. -/
theorem Surveyed.skip (later : next.Surveyed (item.opened? <|> current) rest found)
    (other : ∀ group, item.content ≠ .tileGroup group) (type : item.obu.header.type ≠ .tileGroup)
    (groups : next.groups = survey.groups) (count : next.tileCount = survey.tileCount) :
    survey.Surveyed current (item :: rest) found := by
  have same := framedGroups_skip other current rest
  refine ⟨later.layout, later.begun, ?_, ?_, ?_, ?_, ?_⟩
  · rw [same, ← groups]
    exact later.groups
  · rw [same, List.map_cons, List.filter_cons_of_neg (by simpa using type)]
    exact later.all
  · rw [same]
    exact later.each
  · rw [← count]
    exact later.kept
  · rw [same, ← count]
    exact later.counted

/-- An OBU with neither a frame nor tiles adds nothing. -/
theorem Surveyed.same (later : survey.Surveyed current rest found)
    (frames : ∀ frame, item.content ≠ .frameHeader frame)
    (groups : ∀ group, item.content ≠ .tileGroup group)
    (type : item.obu.header.type ≠ .tileGroup) : survey.Surveyed current (item :: rest) found := by
  have none : item.opened? = none := by
    obtain ⟨obu, content⟩ := item
    cases content with
    | frameHeader frame => exact absurd rfl (frames frame)
    | _ => rfl
  refine .skip ?_ groups type rfl rfl
  rw [none]
  exact later

/-- A tile group is read for the layout of the frame in front of it. -/
theorem Surveyed.group {frame : FrameHeader} {layout : TileLayout} {obu : Obu} {group : TileGroup}
    (type : obu.header.type = .tileGroup) (begun : frame.Begun) (cut : frame.layout = some layout)
    (parsed : TileGroup.parse obu.payload layout = .ok group)
    (alike : survey.tileCount.getD layout.tileCount = layout.tileCount)
    (later : Surveyed { survey with
        tileCount := some layout.tileCount
        groups := survey.groups ++ [(⟨obu, group⟩ : GroupObu).placed] } (some frame) rest found) :
    survey.Surveyed (some frame) (⟨obu, .tileGroup group⟩ :: rest) found := by
  have count := later.kept _ rfl
  refine ⟨later.layout, later.begun, ?_, ?_, ?_, ?_, fun _ _ => .inr (List.cons_ne_nil _ _)⟩
  · rw [later.groups, List.append_assoc]
    rfl
  · rw [List.map_cons, List.filter_cons_of_pos (by simpa using type), ← later.all]
    rfl
  · exact List.forall_mem_cons.2 ⟨⟨begun, layout, cut, parsed, count⟩, later.each⟩
  · intro known same
    rw [same] at alike
    rw [count]
    exact congrArg some alike.symm

/-- An OBU that holds neither a frame nor tiles adds nothing. -/
theorem eq_of_add (frames : ∀ frame, item.content ≠ .frameHeader frame)
    (groups : ∀ group, item.content ≠ .tileGroup group)
    (success : survey.add item = .ok next) : next = survey := by
  obtain ⟨obu, content⟩ := item
  cases content with
  | frameHeader frame => exact absurd rfl (frames frame)
  | tileGroup group => exact absurd rfl (groups group)
  | frame => cases success
  | _ =>
    simp only [add] at success
    split at success
    · cases success
    · exact (Except.ok.inj success).symm

/-- What a tile group is added to. -/
theorem of_addGroup {obu : Obu} {group : TileGroup}
    (success : survey.addGroup obu group = .ok next) :
    ∃ layout, survey.layout = some layout ∧
      survey.tileCount.getD layout.tileCount = layout.tileCount ∧
      next = {
        survey with
        tileCount := some layout.tileCount
        groups := survey.groups ++ [(⟨obu, group⟩ : GroupObu).placed] } := by
  rw [addGroup] at success
  cases present : survey.layout with
  | none =>
    rw [present] at success
    cases success
  | some layout =>
    rw [present] at success
    simp only at success
    by_cases alike : survey.tileCount.getD layout.tileCount = layout.tileCount
    · rw [if_neg (not_not_intro alike), alike] at success
      exact ⟨layout, rfl, alike, (Except.ok.inj success).symm⟩
    · rw [if_pos alike] at success
      cases success

/-- Over a decoder that waits for nothing but the tiles of the last frame, the OBUs of a unit are
    surveyed. -/
theorem foldlM_surveyed {unit : List ParsedObu} {state behind : DecoderState}
    (run : Decode.Interprets state unit behind) (inRange : state.InRange)
    (begun : ∀ frame, current = some frame → frame.Begun)
    (waits : ∀ frame, current = some frame → ∀ pending, state.pending = some pending →
      pending = frame)
    (layout : survey.layout = current.bind FrameHeader.layout)
    (success : unit.foldlM add survey = .ok found) : survey.Surveyed current unit found := by
  induction run generalizing survey current with
  | nil =>
    cases success
    exact ⟨layout, begun, (List.append_nil _).symm, rfl, (by rintro _ ⟨⟩), fun _ same => same,
      fun _ same => .inl same⟩
  | @cons state between behind item rest first later ih =>
    obtain ⟨obu, content⟩ := item
    have outcome : Decode.Outcome state obu content between := Decode.interpret_outcome first
    have betweenInRange := ((Decode.interpret_safe obu).of_ok inRange first).2
    have type := outcome.type_eq_iff
    rw [List.foldlM_cons] at success
    obtain ⟨next, added, onward⟩ := Checked.bind_eq_ok.1 success
    have waits' (still : ∀ pending, between.pending = some pending → state.pending = some pending)
        (frame : FrameHeader) (known : current = some frame) (pending : FrameHeader)
        (waiting : between.pending = some pending) : pending = frame :=
      waits frame known pending (still pending waiting)
    have quiet (frames : ∀ frame, content ≠ .frameHeader frame)
        (groups : ∀ group, content ≠ .tileGroup group)
        (still : ∀ pending, between.pending = some pending → state.pending = some pending) :
        survey.Surveyed current (⟨obu, content⟩ :: rest) found := by
      obtain rfl := eq_of_add frames groups added
      exact .same (ih betweenInRange begun (waits' still) layout onward) frames groups fun same =>
        (type.1 same).elim groups
    have grouped {frame : FrameHeader} {chosen : TileLayout} {group : TileGroup}
        (same : content = .tileGroup group) (waiting : state.pending = some frame)
        (cut : frame.layout = some chosen) (parsed : TileGroup.parse obu.payload chosen = .ok group)
        (still : ∀ pending, between.pending = some pending → state.pending = some pending) :
        survey.Surveyed current (⟨obu, content⟩ :: rest) found := by
      subst same
      obtain ⟨_, present, alike, rfl⟩ := of_addGroup added
      rw [layout] at present
      obtain ⟨own, rfl, present⟩ := Option.bind_eq_some_iff.1 present
      obtain rfl := waits own rfl _ waiting
      obtain rfl := Option.some.inj (present.symm.trans cut)
      exact .group (type.2 ⟨group, rfl⟩) (begun _ rfl) cut parsed alike
        (ih betweenInRange begun (waits' still) layout onward)
    cases outcome with
    | temporalDelimiter => exact quiet (by simp) (by simp) (by simp)
    | sequenceHeader => exact quiet (by simp) (by simp) fun _ same => same
    | frameHeaderCopy => exact quiet (by simp) (by simp) fun _ same => same
    | other => exact quiet (by simp) (by simp) fun _ same => same
    | frame => cases added
    | @existingFrame sequence frame kept _ idle present parsed shown =>
      have uncut := (FrameHeader.parse_cut parsed).uncut shown
      have none : ParsedObu.opened? ⟨obu, .frameHeader frame⟩ = none := if_pos shown
      simp only [add, uncut] at added
      cases added
      refine .skip ?_ (by simp) (by simp [type]) rfl rfl
      rw [none]
      exact ih betweenInRange begun (by simp [idle]) layout onward
    | @frameHeader sequence frame kept _ idle present parsed own =>
      have begun : frame.Begun :=
        ⟨own, (betweenInRange.pending frame rfl).1, sequence, FrameHeader.parse_cut parsed⟩
      obtain ⟨chosen, cut, -⟩ := begun.layout
      have opened : (ParsedObu.opened? ⟨obu, .frameHeader frame⟩ <|> current) = some frame := by
        simp only [ParsedObu.opened?, own]
        rfl
      simp only [add, cut] at added
      cases added
      have later : Surveyed { survey with layout := some chosen <|> survey.layout } (some frame)
          rest found := by
        refine ih betweenInRange ?_ ?_ cut.symm onward
        · rintro _ ⟨⟩
          exact begun
        · rintro _ ⟨⟩ _ ⟨⟩
          rfl
      rw [← opened] at later
      exact later.skip (by simp) (by simp [type]) rfl rfl
    | tileGroup _ waiting cut parsed => exact grouped rfl waiting cut parsed fun _ same => same
    | lastTileGroup _ waiting cut parsed => exact grouped rfl waiting cut parsed (by simp)

theorem ofUnit_surveyed {unit : List ParsedObu} {state behind : DecoderState}
    (run : Decode.Interprets state unit behind) (inRange : state.InRange)
    (success : ofUnit unit = .ok found) : empty.Surveyed none unit found := by
  obtain ⟨survey, folded, success⟩ := Checked.bind_eq_ok.1 success
  by_cases many : TileInfo.maxGroups < survey.groups.length
  · rw [if_pos many] at success
    cases success
  · rw [if_neg many] at success
    cases success
    exact foldlM_surveyed run inRange (by rintro _ ⟨⟩) (by rintro _ ⟨⟩) rfl folded

end TileSplitter.Survey

end Av1Tiling
